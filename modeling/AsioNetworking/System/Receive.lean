import AsioNetworking.System.Handshake
import AsioNetworking.System.Delivery

/-!
# Delivery from the server to the clients

The server may send as soon as a client is accepted: what `OnClientConnection` sends goes out after
the nonce. The client reads its nonce first, and then the frames.
-/

namespace AsioNetworking

open List

variable {T ι : Type} [DecidableEq ι] [IdType T]

namespace System

variable {G : System T ι → List (SystemEffect T ι) → SystemEvent T ι → Prop}
  {s : System T ι} {h : List (SystemEffect T ι)} {i : ι}

/-- No reader of a client passes on a frame without a body while its `m_msgTemporaryIn` has one. -/
def ReusesNoBody (s : System T ι) : SystemEvent T ι → Prop
  | .client i e => (s.clients i).connection.reusesBody e = false
  | _ => True

instance (s : System T ι) : DecidablePred s.ReusesNoBody
  | .client _ _ => inferInstanceAs (Decidable (_ = _))
  | .server _ | .send _ _ | .pop _ => .isTrue trivial

theorem run_popped (hr : (machine T ι).Run G init [] s h) (i : ι) :
    popped i h <+: pushes (clientHist i h) := by
  rw [run_incoming hr i]
  exact prefix_append _ _

/-- What the reader of a client passes on has a body only where the header announces one. -/
theorem run_client_no_body (hr : (machine T ι).Run G init [] s h)
    (hG : ∀ s h e, G s h e → s.ReusesNoBody e) (i : ι) :
    ∀ m ∈ pushes (clientHist i h), m.header.size ≤ 8 → m.body = [] := by
  refine Connection.Start.client.run_no_body (run_client hr ?_ ?_)
  · intro s h e _ hg
    exact hG _ _ _ hg
  · intro s h msg _
    rfl

/-- In every run of a server and its clients where the bytes of each socket go out in order and no
reader of a client reuses a body: what a client takes from its queue are the first messages, in order,
of those that the server gave to its connection, whoever gave them and when. -/
theorem reception (hr : (machine T ι).Run (fun s _ e => s.InOrder e ∧ s.ReusesNoBody e) init [] s h)
    (i : ι) (hd : ∀ m ∈ sends (peerHist i h), m.Declared) :
    popped i h <+: sends (peerHist i h) := by
  have hdeliver := run_deliver_down hr (fun _ _ _ hg => hg.1) i fun m hm => (hd m hm).framed
  have hclean := run_client_no_body hr (fun _ _ _ hg => hg.2) i
  exact (run_popped hr i).trans (prefix_of_prefix_deliver hdeliver hd hclean)

/-- No body is reused where the server sends no message without a body after one with a body. -/
theorem reception_of_bodies (hr : (machine T ι).Run (fun s _ e => s.InOrder e) init [] s h) (i : ι)
    (hd : ∀ m ∈ sends (peerHist i h), m.Declared)
    (hb : (sends (peerHist i h)).Pairwise fun m m' => m.body ≠ [] → m'.body ≠ []) :
    popped i h <+: sends (peerHist i h) := by
  have hdeliver := run_deliver_down hr (fun _ _ _ hg => hg) i fun m hm => (hd m hm).framed
  rw [deliver_eq_self hd hb] at hdeliver
  exact (run_popped hr i).trans hdeliver

/-- `OnClientConnection` sends a message without a body; the server then sends one with a body, and the
client takes both. -/
def greeted : System UInt32 Unit × List (SystemEffect UInt32 Unit) :=
  ((machine UInt32 Unit).exec (fun s _ e => s.InOrder e ∧ s.ReusesNoBody e) init []
    [.client () .established, .client () (.onConnect true), .server (.accept () 7 [⟨⟨9, 0⟩, []⟩] true),
      .server (.messageAllClients ⟨⟨1, 10⟩, [5, 6]⟩), .server (.user []),
      .server (.conn () .runTask), .server (.conn () .runTask), .server (.conn () (.put 0 8)),
      .server (.conn () (.writeOk 0)), .client () (.readOk 0 (uint64Bytes 7)), .client () (.put 0 8),
      .client () (.writeOk 0), .server (.conn () (.put 0 8)), .server (.conn () (.writeOk 0)),
      .server (.conn () (.put 0 8)), .server (.conn () (.writeOk 0)), .server (.conn () (.put 0 2)),
      .client () (.readOk 0 [9, 0, 0, 0, 0, 0, 0, 0]), .pop (),
      .client () (.readOk 0 [1, 0, 0, 0, 10, 0, 0, 0]), .client () (.readOk 0 [5, 6]), .pop ()]).get
    (by decide +kernel)

theorem reception_greeted : popped () greeted.2 = [⟨⟨9, 0⟩, []⟩, ⟨⟨1, 10⟩, [5, 6]⟩] ∧
    popped () greeted.2 <+: sends (peerHist () greeted.2) :=
  ⟨by decide +kernel, reception (.of_isSome _ _ : (machine UInt32 Unit).Run
    (fun s _ e => s.InOrder e ∧ s.ReusesNoBody e) init [] greeted.1 greeted.2) () (by decide +kernel)⟩

end System

end AsioNetworking
