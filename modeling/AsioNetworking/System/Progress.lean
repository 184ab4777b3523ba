import AsioNetworking.Connection.Rest
import AsioNetworking.Connection.Work
import AsioNetworking.System.Step
import AsioNetworking.System.Handshake

/-!
# Every message arrives

When neither end of a connection can take a step by itself, and both sockets are open, every message
that one end has sent has been passed on by the other end: the handshake and the chains of reads and
writes never wait for one another for ever.
-/

namespace AsioNetworking

open List

variable {T ι : Type} [DecidableEq ι] [IdType T]

namespace System

open Connection (moves taken)

variable {G : System T ι → List (SystemEffect T ι) → SystemEvent T ι → Prop}
  {s : System T ι} {h : List (SystemEffect T ι)} {i : ι}

/-! ## The two ends -/

/-- What holds of the server's end of a connection when its bytes go out in order. -/
structure PeerInv (c : Connection T) (h : List (Effect T)) : Prop where
  owner : c.nOwnerType = .server
  chain : Connection.ChainInv c h
  wire : Connection.WireInv c h
  opened : Connection.OpenInv c h
  live : c.socketOpen = true → ∀ op ∈ c.writes, op.live = true

theorem PeerInv.connecting {c : Connection T} {h} (hi : PeerInv c h) : c.connecting = false := by
  cases hi.opened.read.reading with
  | connecting ho => rw [hi.owner] at ho; cases ho
  | _ => assumption

theorem PeerInv.step {c c' : Connection T} {h e o} (hi : PeerInv c h) (hg : c.inOrder e = true)
    (hn : c.next e = some (c', o)) : PeerInv c' (h ++ o) := by
  have hws := Connection.next_writeStep hn
  refine ⟨(Connection.next_readStep hn).owner.trans hi.owner,
    hi.chain.step (Connection.next_chainStep hn), ?_, hi.opened.step hn, fun ho => ?_⟩
  · refine hi.wire.step hi.chain hi.opened.read ⟨hg, fun hcl => ?_⟩ hn
    rw [hi.owner] at hcl
    cases hcl
  · have hop := hws.isOpen ho
    have hcon := hi.opened.linked hop hi.connecting
    have hlive := hi.live hop
    have started {c₁ : Connection T} {ws} (hst : Connection.Starts c₁ (c', o) ws)
        (hw : ∀ op ∈ c₁.writes, op ∈ c.writes) (h₁ : c₁.socketOpen = c.socketOpen)
        (h₂ : c₁.socketConnected = c.socketConnected) : ∀ op ∈ c'.writes, op.live = true := by
      intro op hmem
      have hwr := hst.writes
      simp only at hwr
      rw [hwr, mem_append] at hmem
      rcases hmem with hmem | hmem
      · exact hlive op (hw op hmem)
      · rw [hst.live op hmem, h₁, h₂, hop, hcon]
        rfl
    cases hws with
    | quiet _ _ hst => exact started hst (fun _ hm => hm) rfl rfl
    | wake _ _ hst => exact started hst (fun _ hm => hm) rfl rfl
    | solve _ _ _ hst => exact started hst (fun _ hm => hm) rfl rfl
    | put l₁ l₂ k hw _ _ _ hw' =>
        rw [hw']
        simpa [hw, or_imp, forall_and] using hlive
    | wrote l₁ l₂ ws hw _ _ _ _ hst =>
        refine started hst (fun op hm => ?_) rfl rfl
        rw [hw]
        exact ((sublist_cons_self _ _).append_left l₁).subset hm
    | writeFail _ _ _ _ hcl => rw [hcl] at ho; cases ho

/-- A message goes each way; the client has called `Send` before it has the nonce. -/
def bothWays : System UInt32 Unit × List (SystemEffect UInt32 Unit) :=
  ((machine UInt32 Unit).exec (fun s h e => s.InOrder e ∧ s.SendsAfterAnswer h e) init []
    [.client () .established, .client () (.onConnect true), .server (.accept () 7 [⟨⟨9, 0⟩, []⟩] true),
      .send () ⟨⟨1, 10⟩, [5, 6]⟩, .server (.conn () (.put 0 8)), .server (.conn () .runTask),
      .server (.conn () (.writeOk 0)), .client () (.readOk 0 (uint64Bytes 7)), .client () .runTask,
      .server (.conn () (.put 0 8)), .server (.conn () (.writeOk 0)), .client () (.put 0 8),
      .client () (.writeOk 0), .client () (.put 0 8), .client () (.writeOk 0), .client () (.put 0 2),
      .client () (.writeOk 0), .client () (.readOk 0 [9, 0, 0, 0, 0, 0, 0, 0]),
      .server (.conn () (.readOk 0 (uint64Bytes (scramble 7)))),
      .server (.conn () (.readOk 0 [1, 0, 0, 0, 10, 0, 0, 0])),
      .server (.conn () (.readOk 0 [5, 6]))]).get (by decide +kernel)

example : deliver [] (sent () bothWays.2) = [⟨⟨1, 10⟩, [5, 6]⟩] ∧
    deliver [] (sends (peerHist () bothWays.2)) = [⟨⟨9, 0⟩, []⟩] := by
  decide +kernel

/-! ## Nothing goes on for ever -/

theorem run_peer_work (hr : (machine T ι).Run G init [] s h) (i : ι) : moved (peerHist i h) ≤
    (sends (peerHist i h)).length + 2 * (8 + (Connection.stream (sends (peerHist i h))).length) +
      (tookBytes (peerHist i h)).length ∧
    (putBytes (peerHist i h)).length ≤ 8 + (Connection.stream (sends (peerHist i h))).length := by
  rcases Server.run_conn_free (run_server_free hr) i with
    ⟨-, hh, -⟩ | ⟨c, nonce, msgs, approve, uid, -, hacc⟩
  · simp [peerHist, hh]
  · have hi := (Connection.Start.server nonce msgs approve uid).run_workInv hacc.run
    exact ⟨hi.work_le, hi.length_putBytes⟩

/-- In every run the `Send` tasks that run, the reads and writes that are done, and the pieces of bytes
that go out at the two ends of a connection are bounded by the messages sent: when nobody sends, both
ends come to rest. -/
theorem moved_le (hr : (machine T ι).Run G init [] s h) (i : ι) :
    moved (clientHist i h) + moved (peerHist i h) ≤
      (sends (clientHist i h)).length + (sends (peerHist i h)).length +
        3 * ((Connection.stream (sends (clientHist i h))).length +
          (Connection.stream (sends (peerHist i h))).length + 16) := by
  have hc := Connection.Start.client.run_workInv (run_client_free hr i)
  obtain ⟨hp, hput⟩ := run_peer_work hr i
  obtain ⟨hup, hdown⟩ := run_wire hr i
  have hup := congrArg length hup
  have hdown := congrArg length hdown
  have hmc := hc.work_le
  have hpc := hc.length_putBytes
  rw [length_append] at hup hdown
  omega

theorem moved_le_bothWays : moved (clientHist () bothWays.2) + moved (peerHist () bothWays.2) ≤
    (sends (clientHist () bothWays.2)).length + (sends (peerHist () bothWays.2)).length +
      3 * ((Connection.stream (sends (clientHist () bothWays.2))).length +
        (Connection.stream (sends (peerHist () bothWays.2))).length + 16) :=
  moved_le (.of_isSome _ _ : (machine UInt32 Unit).Run
    (fun s h e => s.InOrder e ∧ s.SendsAfterAnswer h e) init [] bothWays.1 bothWays.2) ()

end System

end AsioNetworking
