import AsioNetworking.Connection.Theorems

/-!
# What a connection puts on the wire

When the bytes of the writes go out in the order the writes were started, and a client runs no
`Send` task before it answers, the wire carries the handshake and then the messages.
-/

namespace AsioNetworking

open List Framing

variable {T : Type} [IdType T]

namespace Connection

variable {c c' : Connection T} {h : List (Effect T)}

/-- The bytes go out in order, and a client that runs a `Send` task has started its answer. -/
def Ordered (c : Connection T) (h : List (Effect T)) (e : Event T) : Prop :=
  c.inOrder e = true ∧ (c.nOwnerType = .client → c.runsSend e = true → answers h ≠ [])

structure WireInv (c : Connection T) (h : List (Effect T)) : Prop where
  rest : c.socketOpen = true → putBytes h ++ c.writes.flatMap (·.rest) = startedBytes h
  started : putBytes h <+: startedBytes h
  order : startedBytes h = (answers h).flatten ++ chainStarted h
  client : c.nOwnerType = .client → answers h = [] → runs h = []
  server : c.nOwnerType = .server → answers h = [uint64Bytes c.nHandshakeOut] ∨
    answers h = [] ∧ c.socketOpen = false ∧ putBytes h = []

/-! ## What a step leaves alone -/

theorem posts_popFront (c : Connection T) : sends c.popFront.2 = [] ∧ runs c.popFront.2 = [] := by
  cases hq : c.qMessagesOut with
  | nil => simp [popFront, hq]
  | cons m q => rcases popFront_eq hq with ⟨_, he⟩ | ⟨m', q', _, he⟩ <;> simp [he]

theorem posts_onWrite (kind : OpKind) (c : Connection T) :
    sends (onWrite kind c).2 = [] ∧ runs (onWrite kind c).2 = [] := by
  cases kind with
  | validation =>
      simp only [onWrite, onWriteValidation]
      split <;> exact ⟨rfl, rfl⟩
  | body => exact posts_popFront c
  | header =>
      simp only [onWrite, onWriteHeader]
      split
      · exact ⟨rfl, rfl⟩
      · split
        · rename_i msg q hq _
          simp [writeBody, hq]
        · exact posts_popFront c

theorem ChainStep.runs_eq_nil {e o} (hs : ChainStep c c' e o) (he : c.runsSend e = false) :
    runs o = [] := by
  cases hs with
  | other ho _ => exact (offChain_projections ho).2.1
  | queue hp => simp [runsSend, hp] at he
  | wake msg live hp => simp [runsSend, hp] at he
  | wrote l₁ l₂ _ _ _ _ _ _ _ => simp [posts_onWrite]
  | send => rfl
  | put => rfl
  | writeFail => rfl

theorem ChainStep.sends {e o} (hs : ChainStep c c' e o) :
    (∃ msg, e = .send msg ∧ o = [.send msg]) ∨ AsioNetworking.sends o = [] := by
  cases hs with
  | send msg => exact Or.inl ⟨msg, rfl, rfl⟩
  | other ho _ => exact Or.inr (offChain_projections ho).1
  | wrote l₁ l₂ _ _ _ _ _ _ _ => exact Or.inr (by simp [posts_onWrite])
  | queue => exact Or.inr rfl
  | wake => exact Or.inr rfl
  | put => exact Or.inr rfl
  | writeFail => exact Or.inr rfl

/-- What a connection keeps for life: a server its nonce, both roles the value they compare with
and their id. -/
structure SameSelf (c c' : Connection T) : Prop where
  out : c.nOwnerType = .server → c'.nHandshakeOut = c.nHandshakeOut
  check : c'.nHandshakeCheck = c.nHandshakeCheck
  uid : c'.id = c.id

theorem ReadStep.sameSelf {e o} (hs : ReadStep c c' e o) : SameSelf c c' := by
  cases hs with
  | other _ h => exact ⟨fun _ => h.out, h.check, h.uid⟩
  | took l₁ l₂ bs _ _ =>
      rename_i op _ _
      cases hk : op.kind with
      | validation =>
          rcases c.role with ho | ho <;> simp only [onRead, onReadValidation, ho]
          · exact ⟨fun hs => absurd hs (by simp [ho]), rfl, rfl⟩
          · split <;> exact ⟨fun _ => rfl, rfl, rfl⟩
      | header =>
          simp only [onRead, onReadHeader]
          split <;> exact ⟨fun _ => rfl, rfl, rfl⟩
      | body => exact ⟨fun _ => rfl, rfl, rfl⟩
  | wrote _ ws _ => simp only [onWriteValidation]; split <;> exact ⟨fun _ => rfl, rfl, rfl⟩
  | _ => exact ⟨fun _ => rfl, rfl, rfl⟩

theorem run_accepted {G nonce msgs approve uid} (hr : (machine T).Run G
    (accepted nonce msgs approve uid).1 (accepted nonce msgs approve uid).2 c h) :
    c.nOwnerType = .server ∧ c.nHandshakeOut = nonce ∧ c.nHandshakeCheck = scramble nonce ∧
      c.id = if approve then uid else 0 := by
  refine hr.invariant (P := fun c _ => c.nOwnerType = .server ∧ c.nHandshakeOut = nonce ∧
    c.nHandshakeCheck = scramble nonce ∧ c.id = if approve then uid else 0) ?_ ?_
  · cases approve with
    | true => rw [accepted_approved]; exact ⟨rfl, rfl, rfl, rfl⟩
    | false => rw [accepted_denied]; exact ⟨rfl, rfl, rfl, rfl⟩
  · rintro c h e c' o ⟨ho, hout, hcheck, hid⟩ - hn
    have hrs := next_readStep hn
    obtain ⟨h1, h2, h3⟩ := hrs.sameSelf
    exact ⟨hrs.owner.trans ho, (h1 ho).trans hout, h2.trans hcheck, h3.trans hid⟩

/-! ## Steps of the invariant -/

theorem Chain.started_prefix {q w f p s} (hc : Chain (T := T) q w f p s) : s <+: stream q := by
  cases hc with
  | idle => exact nil_prefix
  | header => simp only [stream_cons, Message.toBytes, append_assoc]; exact prefix_append _ _
  | body => simp only [stream_cons]; exact prefix_append _ _
  | stuck m q p s _ hs => exact hs.trans (prefix_append _ _)

/-- What the chain was given to write is a part of the messages run. -/
theorem ChainInv.chainStarted_prefix (hi : ChainInv c h) : chainStarted h <+: stream (runs h) := by
  obtain ⟨-, hqueue, -, -, p, s, hc, -, hst⟩ := hi
  rw [hst, hqueue, stream_append, prefix_append_right_inj]
  exact hc.started_prefix

/-- Before a client has answered, its chain has started nothing. -/
theorem ChainInv.started_nil (hi : ChainInv c h) (hr : runs h = []) : chainStarted h = [] := by
  have := hi.chainStarted_prefix
  rw [hr, stream_nil, prefix_nil] at this
  exact this

omit [IdType T] in
theorem WireInv.starts {c₁ : Connection T} {o ws} (hi : WireInv c h) (hst : Starts c₁ (c', o) ws)
    (hrest : c₁.socketOpen = true → putBytes h ++ c₁.writes.flatMap (·.rest) = startedBytes h)
    (ho : c₁.socketOpen = c.socketOpen) (hch : ∀ op ∈ ws, op.kind.isChain = true)
    (hown : c'.nOwnerType = c.nOwnerType)
    (hout : c.nOwnerType = .server → c'.nHandshakeOut = c.nHandshakeOut)
    (hcl : c.nOwnerType = .client → answers h = [] → runs o = []) : WireInv c' (h ++ o) := by
  obtain ⟨-, hpre, hord, hclient, hserver⟩ := hi
  obtain ⟨hw, hs, hc, ha, hp, -, hop⟩ := hst
  have hf : ws.filter (·.kind.isChain) = ws := filter_eq_self.mpr hch
  have hn : ws.filter (!·.kind.isChain) = [] :=
    filter_eq_nil_iff.mpr fun op hop => by simp [hch op hop]
  simp only [hf, hn, map_nil] at hw hs hc ha hp hop
  refine ⟨fun hopen => ?_, ?_, ?_, fun hown' he => ?_, fun hown' => ?_⟩
  · rw [putBytes_append, hp, append_nil, hw, flatMap_append, ← append_assoc, hrest (hop hopen),
      startedBytes_append, hs]
  · rw [putBytes_append, hp, append_nil, startedBytes_append]
    exact hpre.trans (prefix_append _ _)
  · simp only [startedBytes_append, chainStarted_append, answers_append, hs, hc, ha, hord,
      append_nil, append_assoc]
  · rw [answers_append, ha, append_nil] at he
    rw [hown] at hown'
    rw [runs_append, hclient hown' he, hcl hown' he, append_nil]
  · rw [hown] at hown'
    rw [answers_append, ha, append_nil, putBytes_append, hp, append_nil, hout hown']
    refine (hserver hown').imp_right fun ⟨h1, h2, h3⟩ => ⟨h1, ?_, h3⟩
    rw [← ho] at h2
    cases hso : c'.socketOpen with
    | false => rfl
    | true => rw [hop hso] at h2; cases h2

theorem WireInv.step {e o} (hi : WireInv c h) (hc : ChainInv c h) (hr : ReadInv c h)
    (hg : Ordered c h e) (hn : c.next e = some (c', o)) : WireInv c' (h ++ o) := by
  have hrs := next_readStep hn
  have hown := hrs.owner
  have hout := hrs.sameSelf.out
  have hcl : c.nOwnerType = .client → answers h = [] → runs o = [] := fun ho ha =>
    (next_chainStep hn).runs_eq_nil (Bool.eq_false_iff.mpr fun hrun => hg.2 ho hrun ha)
  cases next_writeStep hn with
  | quiet _ _ hst => exact hi.starts hst hi.rest rfl (by simp) hown hout hcl
  | wake msg _ hst => exact hi.starts hst hi.rest rfl (by simp) hown hout hcl
  | wrote l₁ l₂ ws hw _ hz _ hch hst =>
      refine hi.starts hst (fun ho => ?_) rfl hch hown hout hcl
      rw [← hi.rest ho, hw]
      simp [hz]
  | solve j bs hs hst =>
      obtain ⟨ho, hu, -⟩ := hr.of_solves hs
      have ha := (hu.answers ho).1
      have hch := hc.started_nil (hi.client ho ha)
      have hst0 : startedBytes h = [] := by rw [hi.order, ha, hch]; rfl
      have hput0 : putBytes h = [] := by simpa [hst0] using hi.started
      obtain ⟨hw, hs, hcs, has, hp, -, hop⟩ := hst
      refine ⟨fun hopen => ?_, ?_, ?_, fun _ he => ?_, fun hs => ?_⟩
      · rw [putBytes_append, startedBytes_append, hp, hs, hw, flatMap_append, ← append_assoc,
          append_nil, hi.rest (hop hopen)]
      · rw [putBytes_append, hp, hput0]; exact nil_prefix
      · simp only [startedBytes_append, chainStarted_append, answers_append, hs, hcs, has, ha, hch,
          hst0]
        simp
      · simp [has] at he
      · rw [hown, ho] at hs; cases hs
  | put l₁ l₂ k hw _ hop hop' hw' =>
      rename_i op _
      have hl₁ : l₁.flatMap (·.rest) = [] := by
        have := hg.1
        simp only [inOrder, hw, take_left', all_eq_true, List.isEmpty_iff] at this
        exact flatMap_eq_nil_iff.mpr this
      have hrest := hi.rest hop
      rw [hw, flatMap_append, flatMap_cons, hl₁, nil_append] at hrest
      have heq : putBytes h ++ op.rest.take k ++ (op.rest.drop k ++ l₂.flatMap (·.rest)) =
          startedBytes h := by
        rw [← hrest, append_assoc, ← append_assoc (take k _), take_append_drop]
      refine ⟨fun _ => ?_, ?_, by simpa using hi.order, fun ho he => ?_, fun ho => ?_⟩
      · rw [hw', flatMap_append, flatMap_cons, hl₁, nil_append]
        simpa using heq
      · simp only [putBytes_append, startedBytes_append, putBytes, startedBytes, append_nil]
        exact ⟨_, heq⟩
      · simpa using hi.client (hown ▸ ho) (by simpa using he)
      · rw [hown] at ho
        rw [hout ho]
        refine (hi.server ho).imp (by simp) fun ⟨_, h2, _⟩ => ?_
        rw [hop] at h2; cases h2
  | writeFail l₁ l₂ hw hw' hop =>
      refine ⟨fun ho => ?_, by simpa using hi.started, by simpa using hi.order, fun ho he => ?_,
        fun ho => ?_⟩
      · rw [hop] at ho; cases ho
      · simpa using hi.client (hown ▸ ho) (by simpa using he)
      · rw [hown] at ho
        rw [hout ho]
        refine (hi.server ho).imp (by simp) fun ⟨h1, h2, h3⟩ => ⟨by simpa using h1, hop, by
          simpa using h3⟩

theorem Start.wireInv (hs : Start c h) : WireInv c h := by
  cases hs with
  | client =>
      exact ⟨fun _ => rfl, nil_prefix, rfl, fun _ _ => rfl, fun ho => by
        simp [connected, connectToServer, construct] at ho⟩
  | server nonce msgs approve uid =>
      obtain ⟨h1, h2, h3, h4⟩ := offWire_projections (o := msgs.map (Effect.send (T := T)))
        (by simp [Effect.onWire])
      cases approve with
      | true =>
          rw [accepted_approved]
          refine ⟨fun _ => ?_, ?_, ?_, fun ho => ?_, fun _ => Or.inl ?_⟩
          · simp [h1, h4]
          · simp [h1, h4]
          · simp [h1, h2, h3]
          · simp [construct] at ho
          · simp [h3, construct]
      | false =>
          rw [accepted_denied]
          refine ⟨fun ho => ?_, ?_, ?_, fun ho => ?_, fun _ => Or.inr ⟨h3, rfl, h4⟩⟩
          · simp [construct] at ho
          · rw [h4]; exact nil_prefix
          · rw [h1, h2, h3]; rfl
          · simp [construct] at ho

/-! ## What the wire carries -/

theorem ChainInv.chainStarted_sends (hi : ChainInv c h) : chainStarted h <+: stream (sends h) := by
  rw [hi.fifo, stream_append]
  exact hi.chainStarted_prefix.trans (prefix_append _ _)

/-- A server puts its nonce and the messages it sends on the wire. -/
theorem WireInv.server_put (hi : WireInv c h) (hc : ChainInv c h) (ho : c.nOwnerType = .server) :
    putBytes h <+: uint64Bytes c.nHandshakeOut ++ stream (sends h) := by
  rcases hi.server ho with ha | ⟨_, _, hp⟩
  · apply hi.started.trans
    rw [hi.order, ha, flatten_singleton, prefix_append_right_inj]
    exact hc.chainStarted_sends
  · rw [hp]; exact nil_prefix

/-- A client that has put bytes on the wire has read a nonce `hs`, and the bytes are the answer to
it and the messages sent. -/
theorem WireInv.client_put (hi : WireInv c h) (hc : ChainInv c h) (hr : ReadInv c h)
    (ho : c.nOwnerType = .client) (hp : putBytes h ≠ []) :
    ∃ hs, hs.length = 8 ∧ hs <+: tookBytes h ∧
      putBytes h <+: uint64Bytes (scramble (uint64OfBytes hs)) ++ stream (sends h) := by
  have hane : answers h ≠ [] := fun ha => by
    have := hi.started
    rw [hi.order, ha, hc.started_nil (hi.client ho ha)] at this
    exact hp (by simpa using this)
  obtain ⟨hs, hl, hto, ha⟩ := hr.reading.answered ho hane
  refine ⟨hs, hl, hto, hi.started.trans ?_⟩
  rw [hi.order, ha, flatten_singleton, prefix_append_right_inj]
  exact hc.chainStarted_sends

/-! ## Clients that send after their handshake -/

/-- `Send` is called after the handshake. -/
def SendsLate (h : List (Effect T)) : Event T → Prop
  | .send _ => 0 < headerReads h
  | _ => True

structure LateInv (c : Connection T) (h : List (Effect T)) : Prop where
  owner : c.nOwnerType = .client
  chain : ChainInv c h
  read : ReadInv c h
  wire : WireInv c h
  one : c.writes.length ≤ 1
  late : sends h ≠ [] → 0 < headerReads h

/-- A client that has sent has no answer outstanding, and has started one. -/
theorem LateInv.passed (hi : LateInv c h) (hs : sends h ≠ []) :
    c.answerWrites = [] ∧ answers h ≠ [] := by
  obtain ⟨hs, fs, rest, hu, hp, -⟩ := hi.read.reading.heard (Or.inr (hi.late hs))
  exact ⟨length_eq_zero_iff.mp (hp.client hi.owner).2, by simp [hu.answers hi.owner]⟩

theorem LateInv.sends_of_runsSend {e} (hi : LateInv c h) (hr : c.runsSend e = true) :
    sends h ≠ [] := by
  cases e with
  | runTask =>
      simp only [runsSend] at hr
      split at hr
      · rename_i msg tasks hp
        rw [hi.chain.fifo]
        simp [pendingSends, hp]
      · cases hr
  | _ => cases hr

/-- Steps of a client that sends after its handshake are in order and never meet another write. -/
theorem LateInv.guards {e o} (hi : LateInv c h) (hn : c.next e = some (c', o)) :
    Ordered c h e ∧ c.Alone e := by
  refine ⟨⟨?_, fun _ hr => (hi.passed (hi.sends_of_runsSend hr)).2⟩, fun hw => ?_, fun hs => ?_⟩
  · cases next_step hn with
    | put l₁ l₂ k hw =>
        have hone := hi.one
        rw [hw, length_append, length_cons] at hone
        have hz : l₁.length = 0 := by omega
        rw [hz]
        rfl
    | _ => rfl
  · exact (hi.passed (hi.sends_of_runsSend (wakes_iff.mp hw).1)).1
  · cases e with
    | readOk j bs =>
        obtain ⟨-, hu, -⟩ := hi.read.of_solves hs
        have hnil : sends h = [] := by
          by_contra hne
          have := hi.late hne
          rw [hu.headers] at this
          omega
        rw [hi.chain.fifo, hi.chain.queue, append_eq_nil_iff, append_eq_nil_iff] at hnil
        exact hi.chain.idle hnil.1.2
    | _ => cases hs

theorem LateInv.step {e o} (hi : LateInv c h) (hg : SendsLate h e) (hn : c.next e = some (c', o)) :
    LateInv c' (h ++ o) := by
  obtain ⟨hord, hal⟩ := hi.guards hn
  refine ⟨(next_readStep hn).owner.trans hi.owner, hi.chain.step (next_chainStep hn),
    hi.read.step (next_readStep hn), hi.wire.step hi.chain hi.read hord hn,
    ((next_writeStep hn).one_writer hi.chain hi.read hi.one).mpr hal, fun hs => ?_⟩
  rw [headerReads_append]
  have hlate : 0 < headerReads h := by
    rcases (next_chainStep hn).sends with ⟨msg, rfl, -⟩ | ho
    · exact hg
    · exact hi.late (by simpa [ho] using hs)
  omega

theorem run_lateInv (hr : (machine T).Run (fun _ => SendsLate) connected [] c h) : LateInv c h := by
  refine hr.invariant ⟨rfl, Start.client.chainInv, Start.client.readInv, Start.client.wireInv, ?_, ?_⟩
    fun _ _ _ _ _ hi hg hn => hi.step hg hn
  · exact Nat.zero_le _
  · intro hs
    exact absurd rfl hs

end Connection

end AsioNetworking
