import AsioNetworking.Delivery
import AsioNetworking.System.Step

/-!
# Delivery from the clients to `OnMessage`

Every client sends after its handshake. Then the wire carries its messages one after the other, and
what `OnMessage` gets is what the server's reader makes of them.
-/

namespace AsioNetworking

open List

variable {T ι : Type} [DecidableEq ι] [IdType T]

namespace System

variable {G : System T ι → List (SystemEffect T ι) → SystemEvent T ι → Prop}
  {s : System T ι} {h : List (SystemEffect T ι)} {i : ι}

/-- A client calls `Send` after its handshake, with a message that declares its length. -/
def Polite (h : List (SystemEffect T ι)) : SystemEvent T ι → Prop
  | .send i msg => 0 < headerReads (clientHist i h) ∧ msg.Declared
  | _ => True

instance (h : List (SystemEffect T ι)) : DecidablePred (Polite h)
  | .send _ _ => inferInstanceAs (Decidable (_ ∧ _))
  | .server _ | .client _ _ | .pop _ => .isTrue trivial

/-- No reader of the server passes on a frame without a body while its `m_msgTemporaryIn` has one. -/
def NoBodyReused (s : System T ι) : SystemEvent T ι → Prop
  | .server (.conn i e) => ∀ c ∈ s.server.conns i, c.reusesBody e = false
  | _ => True

instance (s : System T ι) : DecidablePred s.NoBodyReused
  | .server (.conn _ _) => inferInstanceAs (Decidable (∀ _ ∈ _, _))
  | .server (.accept _ _ _ _) | .server (.update _ _) | .server (.messageAllClients _)
  | .server (.user _) | .send _ _ | .client _ _ | .pop _ => .isTrue trivial

theorem run_client_late (hr : (machine T ι).Run G init [] s h)
    (hG : ∀ s h e, G s h e → Polite h e) (i : ι) :
    Connection.LateInv (s.clients i).connection (clientHist i h) := by
  refine Connection.run_lateInv (run_client hr ?_ ?_)
  · intro s h e he _
    cases e with
    | send => cases he
    | _ => trivial
  · intro s h msg hg
    exact (hG _ _ _ hg).1

/-- What each step asks of the messages given to `Send` holds of all of them. -/
theorem run_all_sent {P : Message T → Prop} (hr : (machine T ι).Run G init [] s h)
    (hG : ∀ s h msg, G s h (.send i msg) → P msg) : ∀ msg ∈ sent i h, P msg := by
  induction hr with
  | refl => simp [sent]
  | @step s h e s' o _ hg hn ih =>
      intro msg hmsg
      rw [sent_append, mem_append] at hmsg
      rcases hmsg with hmsg | hmsg
      · exact ih msg hmsg
      · cases (next_systemStep hn).client_step i with
        | send m _ _ _ _ hs =>
            rw [hs, mem_singleton] at hmsg
            exact hmsg ▸ hG s h m hg
        | refuse m _ _ _ _ hs =>
            rw [hs, mem_singleton] at hmsg
            exact hmsg ▸ hG s h m hg
        | idle _ _ _ hs => simp [hs] at hmsg
        | client _ _ _ _ _ _ _ hs => simp [hs] at hmsg
        | pop _ _ _ _ _ _ hs => simp [hs] at hmsg

theorem run_all_sends {P : Message T → Prop} (hr : (machine T ι).Run G init [] s h)
    (hG : ∀ s h msg, G s h (.send i msg) → P msg) : ∀ msg ∈ sends (clientHist i h), P msg := by
  intro msg hmsg
  exact run_all_sent hr hG msg ((run_sent hr i).1.subset hmsg)

/-- What the readers of the server pass on, for every run of clients that send after their
handshake. -/
theorem run_deliver (hr : (machine T ι).Run G init [] s h)
    (hG : ∀ s h e, G s h e → Polite h e) (i : ι) :
    pushes (peerHist i h) <+: deliver [] (sends (clientHist i h)) := by
  have hsrv := run_server_free hr
  rcases Server.run_conn_free hsrv i with ⟨-, hh, -⟩ | ⟨c, nonce, msgs, approve, uid, -, hacc⟩
  · rw [peerHist, hh]; exact nil_prefix
  have hread := (Connection.Start.server nonce msgs approve uid).run_readInv hacc.run
  have hlate := run_client_late hr hG i
  have hf : ∀ m ∈ sends (clientHist i h), m.Framed := fun m hm =>
    (run_all_sends hr (fun _ _ _ hg => (hG _ _ _ hg).2) m hm).framed
  have htook : tookBytes (peerHist i h) <+: putBytes (clientHist i h) := by
    rw [← (run_wire hr i).1]; exact prefix_append _ _
  by_cases hput : putBytes (clientHist i h) = []
  · rw [hput, prefix_nil] at htook
    apply Connection.pushes_prefix hread.reading (LittleEndian.length_encode 8 0) hf
    exact htook ▸ nil_prefix
  · obtain ⟨hs, -, -, hput⟩ := hlate.wire.client_put hlate.chain hlate.read hlate.owner hput
    exact Connection.pushes_prefix hread.reading (LittleEndian.length_encode _ _) hf
      (htook.trans hput)

/-- In every run of a server and clients that send after their handshake, where no reader of the
server reuses a body: the ids and bodies that `OnMessage` gets from a client are those of the first
messages that the client gave to `Send`, in order. -/
theorem delivery (hr : (machine T ι).Run (fun s h e => Polite h e ∧ s.NoBodyReused e) init [] s h)
    (i : ι) :
    (Server.onMessages i (serverHist h)).map (fun m => (m.header.id, m.body)) <+:
      (sent i h).map (fun m => (m.header.id, m.body)) := by
  have hsrv : (Server.machine T ι).Run (fun s _ e => ∀ i ce, e = .conn i ce →
      ∀ c ∈ s.conns i, c.reusesBody ce = false) .init [] s.server (serverHist h) := by
    apply run_server hr
    intro s h e hg i ce he
    subst he
    exact hg.2
  have hpush := run_deliver hr (fun _ _ _ hg => hg.1) i
  have hon : Server.onMessages i (serverHist h) <+: pushes (peerHist i h) := by
    rw [peerHist, Server.run_queue hsrv i]; exact prefix_append _ _
  have hclean : ∀ m ∈ pushes (peerHist i h), m.header.size ≤ 8 → m.body = [] := by
    rcases Server.run_conn_each hsrv (fun c e he => by
      cases e <;> simp_all [Server.isCall, Connection.reusesBody]) i with
      ⟨-, hh, -⟩ | ⟨c, nonce, msgs, approve, uid, -, hacc⟩
    · simp [peerHist, hh]
    · exact (Connection.Start.server nonce msgs approve uid).run_no_body hacc.run
  have hd := run_all_sends (i := i) hr fun _ _ _ hg => hg.1.2
  exact (hon.trans ((prefix_of_prefix_deliver hpush hd hclean).trans (run_sent hr i).1)).map _

/-- No body is reused where no client sends a message without a body after one with a body. -/
theorem delivery_of_bodies (hr : (machine T ι).Run (fun _ h e => Polite h e) init [] s h)
    (hb : (sent i h).Pairwise fun m m' => m.body ≠ [] → m'.body ≠ []) :
    Server.onMessages i (serverHist h) <+: sent i h := by
  have hon : Server.onMessages i (serverHist h) <+: pushes (peerHist i h) := by
    rw [peerHist, Server.run_queue (run_server_free hr) i]
    exact prefix_append _ _
  obtain ⟨hpre, -⟩ := run_sent hr i
  have hd := run_all_sends (i := i) hr fun _ _ _ hg => hg.2
  have he := deliver_eq_self hd (hb.sublist hpre.sublist)
  have hpush := run_deliver hr (fun _ _ _ hg => hg) i
  rw [he] at hpush
  exact hon.trans (hpush.trans hpre)

/-! ## Two runs -/

/-- The client connects, gets the nonce 7 and answers it; the server is convinced. -/
def handshake : List (SystemEvent UInt32 Unit) :=
  [.client () .established, .client () (.onConnect true), .server (.accept () 7 [] true),
    .server (.conn () (.put 0 8)), .server (.conn () (.writeOk 0)),
    .client () (.readOk 0 (uint64Bytes 7)), .client () (.put 0 8), .client () (.writeOk 0),
    .server (.conn () (.readOk 0 (uint64Bytes (scramble 7))))]

/-- The client sends a message with two bytes of body; it comes to `OnMessage`. -/
def withBody : List (SystemEvent UInt32 Unit) :=
  [.send () ⟨⟨1, 10⟩, [5, 6]⟩, .client () .runTask, .client () (.put 0 8), .client () (.writeOk 0),
    .client () (.put 0 2), .client () (.writeOk 0),
    .server (.conn () (.readOk 0 [1, 0, 0, 0, 10, 0, 0, 0])), .server (.conn () (.readOk 0 [5, 6])),
    .server (.update 1 false), .server (.user []), .server (.user []), .server (.user [])]

/-- The client sends a message without a body; it comes to `OnMessage`. -/
def withoutBody : List (SystemEvent UInt32 Unit) :=
  [.send () ⟨⟨2, 0⟩, []⟩, .client () .runTask, .client () (.put 0 8), .client () (.writeOk 0),
    .server (.conn () (.readOk 0 [2, 0, 0, 0, 0, 0, 0, 0])),
    .server (.update 1 false), .server (.user []), .server (.user []), .server (.user [])]

def bodyLast : System UInt32 Unit × List (SystemEffect UInt32 Unit) :=
  ((machine UInt32 Unit).exec (fun s h e => Polite h e ∧ s.NoBodyReused e) init []
    (handshake ++ withoutBody ++ withBody)).get (by decide +kernel)

theorem delivery_bodyLast :
    (Server.onMessages () (serverHist bodyLast.2)).map (fun m => (m.header.id, m.body)) <+:
      (sent () bodyLast.2).map (fun m => (m.header.id, m.body)) :=
  delivery (.of_isSome _ _ : (machine UInt32 Unit).Run (fun s h e => Polite h e ∧ s.NoBodyReused e)
    init [] bodyLast.1 bodyLast.2) ()

/-- The second message comes with the body of the first. -/
def bodyReused : System UInt32 Unit × List (SystemEffect UInt32 Unit) :=
  ((machine UInt32 Unit).exec (fun _ h e => Polite h e) init []
    (handshake ++ withBody ++ withoutBody)).get (by decide +kernel)

theorem not_delivery :
    ¬ ∀ (s : System UInt32 Unit) (h : List (SystemEffect UInt32 Unit)),
      (machine UInt32 Unit).Run (fun _ h e => Polite h e) init [] s h →
        (Server.onMessages () (serverHist h)).map (fun m => (m.header.id, m.body)) <+:
          (sent () h).map (fun m => (m.header.id, m.body)) := by
  intro hall
  have hp := hall bodyReused.1 bodyReused.2 (.of_isSome _ _)
  exact absurd hp (by decide +kernel)

end System

end AsioNetworking
