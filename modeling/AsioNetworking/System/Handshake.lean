import AsioNetworking.Connection.Answer
import AsioNetworking.Delivery
import AsioNetworking.System.Step

/-!
# The handshake between a client and the server

A client may call `Send` at any time after `Connect`. The answer to the nonce goes out first when its
`Send` tasks run after the start of the answer; then the server never rejects it.
-/

namespace AsioNetworking

open List

variable {T ι : Type} [DecidableEq ι] [IdType T]

namespace System

variable {G : System T ι → List (SystemEffect T ι) → SystemEvent T ι → Prop}
  {s : System T ι} {h : List (SystemEffect T ι)} {i : ι}

/-- The bytes of each socket go out in the order in which its writes were started. -/
def InOrder (s : System T ι) : SystemEvent T ι → Prop
  | .server (.conn i e) => ∀ c ∈ s.server.conns i, c.inOrder e = true
  | .client i e => (s.clients i).connection.inOrder e = true
  | _ => True

instance (s : System T ι) : DecidablePred s.InOrder
  | .server (.conn _ _) => inferInstanceAs (Decidable (∀ _ ∈ _, _))
  | .client _ _ => inferInstanceAs (Decidable (_ = _))
  | .server (.accept _ _ _ _) | .server (.update _ _) | .server (.messageAllClients _)
  | .server (.user _) | .send _ _ | .pop _ => .isTrue trivial

/-- A client runs a `Send` task only after it has started its answer, or on a closed socket. -/
def SendsAfterAnswer (s : System T ι) (h : List (SystemEffect T ι)) : SystemEvent T ι → Prop
  | .client i e => (s.clients i).connection.runsSend e = true →
      answers (clientHist i h) ≠ [] ∨ (s.clients i).connection.socketOpen = false
  | _ => True

instance (s : System T ι) (h : List (SystemEffect T ι)) : DecidablePred (s.SendsAfterAnswer h)
  | .client _ _ => inferInstanceAs (Decidable (_ → _ ∨ _))
  | .server _ | .send _ _ | .pop _ => .isTrue trivial

theorem run_peer_put (hr : (machine T ι).Run G init [] s h)
    (hG : ∀ s h e, G s h e → s.InOrder e) (i : ι) :
    peerHist i h = [] ∨ ∃ nonce, Server.nonces i (serverHist h) = [nonce] ∧
      putBytes (peerHist i h) <+: uint64Bytes nonce ++ Connection.stream (sends (peerHist i h)) ∧
      (Effect.rejected ∈ peerHist i h → ∃ bs, bs.length = 8 ∧ bs <+: tookBytes (peerHist i h) ∧
        bs ≠ uint64Bytes (scramble nonce)) := by
  have hsrv : (Server.machine T ι).Run (fun s _ e => ∀ i ce, e = .conn i ce →
      ∀ c ∈ s.conns i, c.inOrder ce = true) .init [] s.server (serverHist h) := by
    apply run_server hr
    intro s h e hg i ce he
    subst he
    exact hG _ _ _ hg
  rcases Server.run_conn_each hsrv (fun c e he => by
    cases e <;> simp_all [Server.isCall, Connection.inOrder]) i with
    ⟨-, hh, -⟩ | ⟨c, nonce, msgs, approve, uid, -, hacc⟩
  · exact Or.inl hh
  · refine Or.inr ⟨nonce, hacc.once, Connection.run_accepted_put hacc.run, fun hx => ?_⟩
    rw [← (Connection.run_accepted hacc.run).2.2.1]
    exact (Connection.Start.server nonce msgs approve uid).run_rejected hacc.run hx

/-- What the reader of a client passes on, when the bytes go out in order. -/
theorem run_deliver_down (hr : (machine T ι).Run G init [] s h)
    (hG : ∀ s h e, G s h e → s.InOrder e) (i : ι)
    (hf : ∀ m ∈ sends (peerHist i h), m.Framed) :
    pushes (clientHist i h) <+: deliver [] (sends (peerHist i h)) := by
  have hread := (Connection.Start.client.run_readInv (run_client_free hr i)).reading
  have htook : tookBytes (clientHist i h) <+: putBytes (peerHist i h) := by
    rw [← (run_wire hr i).2]; exact prefix_append _ _
  rcases run_peer_put hr hG i with hnil | ⟨nonce, -, hput, -⟩
  · have htook : tookBytes (clientHist i h) = [] := by
      rw [hnil] at htook
      exact prefix_nil.mp htook
    apply Connection.pushes_prefix hread (LittleEndian.length_encode 8 0) hf
    rw [htook]; exact nil_prefix
  · exact Connection.pushes_prefix hread (LittleEndian.length_encode _ _) hf (htook.trans hput)

/-- In every run where the bytes go out in order and the clients run their `Send` tasks after the
start of their answers: what a client puts on the wire is the answer to the server's nonce and then
the messages sent; the server does not reject it; and it writes on connected sockets only. -/
theorem answer_first (hr : (machine T ι).Run (fun s h e => s.InOrder e ∧ s.SendsAfterAnswer h e)
    init [] s h) (i : ι) :
    (putBytes (clientHist i h) = [] ∨ ∃ nonce, Server.nonces i (serverHist h) = [nonce] ∧
      putBytes (clientHist i h) <+:
        uint64Bytes (scramble nonce) ++ Connection.stream (sends (clientHist i h))) ∧
      Effect.rejected ∉ peerHist i h ∧
      ((s.clients i).isConnected = true → ∀ op ∈ (s.clients i).connection.writes,
        op.live = true) := by
  have hinv : Connection.AnswerInv (s.clients i).connection (clientHist i h) := by
    refine Connection.run_answerInv (run_client hr ?_ ?_)
    · intro s h e _ hg
      exact hg
    · intro s h msg _
      exact ⟨rfl, fun hrun => by cases hrun⟩
  obtain ⟨hup, hdown⟩ := run_wire hr i
  have hdown : tookBytes (clientHist i h) <+: putBytes (peerHist i h) := by
    rw [← hdown]; exact prefix_append _ _
  have hup : tookBytes (peerHist i h) <+: putBytes (clientHist i h) := by
    rw [← hup]; exact prefix_append _ _
  have hread : putBytes (clientHist i h) = [] ∨ ∃ hs, hs.length = 8 ∧
      hs <+: tookBytes (clientHist i h) ∧ putBytes (clientHist i h) <+:
        uint64Bytes (scramble (uint64OfBytes hs)) ++ Connection.stream (sends (clientHist i h)) := by
    rcases hinv.wire with hw | hm
    · by_cases hput : putBytes (clientHist i h) = []
      · exact Or.inl hput
      · exact Or.inr (hw.client_put hinv.chain hinv.read hinv.owner hput)
    · exact Or.inl hm.2
  have hpeer := run_peer_put hr (fun _ _ _ hg => hg.1) i
  have hwire : putBytes (clientHist i h) = [] ∨ ∃ nonce, Server.nonces i (serverHist h) = [nonce] ∧
      putBytes (clientHist i h) <+:
        uint64Bytes (scramble nonce) ++ Connection.stream (sends (clientHist i h)) := by
    refine hread.imp_right fun ⟨hs, hl, hto, hput⟩ => ?_
    have hto := hto.trans hdown
    rcases hpeer with hnil | ⟨nonce, honce, hnonce, -⟩
    · rw [hnil] at hto
      rw [prefix_nil.mp hto] at hl
      cases hl
    · have he : hs = uint64Bytes nonce := (hto.trans hnonce).eq_of_length_eq (prefix_append _ _)
        (hl.trans (LittleEndian.length_encode _ _).symm)
      rw [he, Connection.uint64OfBytes_uint64Bytes] at hput
      exact ⟨nonce, honce, hput⟩
  refine ⟨hwire, fun hx => ?_, hinv.live⟩
  rcases hpeer with hnil | ⟨nonce, honce, -, hrej⟩
  · rw [hnil] at hx; cases hx
  obtain ⟨bs, hl, hto, hne⟩ := hrej hx
  have hto := hto.trans hup
  rcases hwire with hput | ⟨nonce', honce', hput⟩
  · rw [hput] at hto
    rw [prefix_nil.mp hto] at hl
    cases hl
  · rw [honce] at honce'
    cases honce'
    exact hne ((hto.trans hput).eq_of_length_eq (prefix_append _ _)
      (hl.trans (LittleEndian.length_encode _ _).symm))

/-! ## Two runs -/

/-- The client calls `Send` before it has the nonce; its task runs after the start of the answer. -/
def sendEarly : System UInt32 Unit × List (SystemEffect UInt32 Unit) :=
  ((machine UInt32 Unit).exec (fun s h e => s.InOrder e ∧ s.SendsAfterAnswer h e) init []
    [.client () .established, .client () (.onConnect true), .server (.accept () 7 [] true),
      .server (.conn () (.put 0 8)), .send () ⟨⟨1, 10⟩, [5, 6]⟩,
      .client () (.readOk 0 (uint64Bytes 7)), .client () .runTask, .client () (.put 0 8),
      .client () (.put 1 8), .server (.conn () (.readOk 0 (uint64Bytes (scramble 7))))]).get
    (by decide +kernel)

theorem answer_first_sendEarly :
    (putBytes (clientHist () sendEarly.2) = [] ∨
      ∃ nonce, Server.nonces () (serverHist sendEarly.2) = [nonce] ∧
        putBytes (clientHist () sendEarly.2) <+:
          uint64Bytes (scramble nonce) ++ Connection.stream (sends (clientHist () sendEarly.2))) ∧
      Effect.rejected ∉ peerHist () sendEarly.2 := by
  obtain ⟨hput, hrej, -⟩ := answer_first (.of_isSome _ _ : (machine UInt32 Unit).Run
    (fun s h e => s.InOrder e ∧ s.SendsAfterAnswer h e) init [] sendEarly.1 sendEarly.2) ()
  exact ⟨hput, hrej⟩

/-- The client is connected and runs the task of `Send` before it has the nonce: the server takes the
first header for an answer. -/
def sendBeforeAnswer : System UInt32 Unit × List (SystemEffect UInt32 Unit) :=
  ((machine UInt32 Unit).exec (fun s _ e => s.InOrder e) init []
    [.client () .established, .client () (.onConnect true), .send () ⟨⟨1, 10⟩, [5, 6]⟩,
      .client () .runTask, .client () (.put 0 8), .server (.accept () 7 [] true),
      .server (.conn () (.readOk 0 [1, 0, 0, 0, 10, 0, 0, 0]))]).get (by decide +kernel)

theorem not_answer_first :
    ¬ ∀ (s : System UInt32 Unit) (h : List (SystemEffect UInt32 Unit)),
      (machine UInt32 Unit).Run (fun s _ e => s.InOrder e) init [] s h →
        Effect.rejected ∉ peerHist () h := by
  intro hall
  have hrej := hall sendBeforeAnswer.1 sendBeforeAnswer.2 (.of_isSome _ _)
  exact absurd hrej (by decide +kernel)

end System

end AsioNetworking
