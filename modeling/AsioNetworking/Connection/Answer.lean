import AsioNetworking.Connection.Wire

/-!
# Clients that answer before they send

A client may call `Send` at any time. As long as its `Send` tasks run after the start of its answer,
the answer comes first on the wire, and every write is started on a connected socket.
-/

namespace AsioNetworking

open List

variable {T : Type} [IdType T]

namespace Connection

variable {c c' : Connection T} {h : List (Effect T)}

/-! ## The link -/

/-- The socket `c'` is connected when `c` is, and connecting when `c` is. -/
structure SameLink (c c' : Connection T) : Prop where
  connecting : c'.connecting = c.connecting
  connected : c'.socketConnected = c.socketConnected

omit [IdType T] in
theorem SameLink.rfl : SameLink c c := ⟨Eq.refl _, Eq.refl _⟩

omit [IdType T] in
theorem SameLink.of_eq {c₁ : Connection T} (hs : SameLink c₁ c') (h₁ : c₁.connecting = c.connecting)
    (h₂ : c₁.socketConnected = c.socketConnected) : SameLink c c' :=
  ⟨hs.connecting.trans h₁, hs.connected.trans h₂⟩

theorem sameLink_popFront (c : Connection T) : SameLink c c.popFront.1 := by
  cases hq : c.qMessagesOut with
  | nil => simp only [popFront, hq]; exact .rfl
  | cons m q => rcases popFront_eq hq with ⟨_, he⟩ | ⟨m', q', _, he⟩ <;> rw [he] <;> exact ⟨rfl, rfl⟩

theorem sameLink_onWrite (kind : OpKind) (c : Connection T) : SameLink c (onWrite kind c).1 := by
  cases kind with
  | validation => simp only [onWrite, onWriteValidation]; split <;> exact ⟨rfl, rfl⟩
  | body => exact sameLink_popFront c
  | header =>
      simp only [onWrite, onWriteHeader]
      split
      · exact .rfl
      · split
        · simp only [writeBody]; split <;> exact ⟨rfl, rfl⟩
        · exact sameLink_popFront c

theorem sameLink_onRead (kind : OpKind) (bs : List UInt8) (c : Connection T) :
    SameLink c (onRead kind bs c).1 := by
  cases kind with
  | validation =>
      simp only [onRead, onReadValidation]
      split
      · exact ⟨rfl, rfl⟩
      · split <;> exact ⟨rfl, rfl⟩
  | header => simp only [onRead, onReadHeader]; split <;> exact ⟨rfl, rfl⟩
  | body => exact ⟨rfl, rfl⟩

theorem sameLink_runTask (task : Task T) (c : Connection T) : SameLink c (runTask task c).1 := by
  cases task with
  | close => exact ⟨rfl, rfl⟩
  | send msg =>
      simp only [runTask, sendTask]
      split
      · simp only [Result.andThen, writeHeader]; split <;> exact ⟨rfl, rfl⟩
      · exact ⟨rfl, rfl⟩

/-- What a step does to the link: it stays, it comes to be connected, or the attempt is over. -/
theorem next_link {e o} (hn : c.next e = some (c', o)) :
    SameLink c c' ∨ (c'.connecting = c.connecting ∧ c'.socketConnected = true) ∨
      (c'.socketOpen = true → c'.socketConnected = true) ∧ c'.connecting = false := by
  cases next_step hn with
  | established => exact Or.inr (Or.inl ⟨rfl, rfl⟩)
  | connected _ hcon => exact Or.inr (Or.inr ⟨fun _ => hcon, rfl⟩)
  | connectFailed => exact Or.inr (Or.inr ⟨fun ho => (by cases ho), rfl⟩)
  | runTask task tasks _ => exact Or.inl ((sameLink_runTask task _).of_eq rfl rfl)
  | readOk _ _ bs _ => exact Or.inl ((sameLink_onRead _ bs _).of_eq rfl rfl)
  | writeOk _ _ _ => exact Or.inl ((sameLink_onWrite _ _).of_eq rfl rfl)
  | _ => exact Or.inl ⟨rfl, rfl⟩

/-- An open socket whose `async_connect` is done is connected. -/
def Linked (c : Connection T) : Prop :=
  c.socketOpen = true → c.connecting = false → c.socketConnected = true

theorem Linked.step {e o} (hl : c.Linked) (hn : c.next e = some (c', o)) : c'.Linked := by
  intro ho hcn
  rcases next_link hn with hs | ⟨-, hcon⟩ | ⟨hcon, -⟩
  · rw [hs.connected]
    exact hl ((next_writeStep hn).isOpen ho) (hs.connecting.symm.trans hcn)
  · exact hcon
  · exact hcon ho

/-! ## The answer comes first -/

/-- The bytes go out in order, and a `Send` task runs after the start of the answer, or on a closed
socket. -/
def AnswersFirst (c : Connection T) (h : List (Effect T)) (e : Event T) : Prop :=
  c.inOrder e = true ∧ (c.runsSend e = true → answers h ≠ [] ∨ c.socketOpen = false)

/-- The socket closed before anything went out. -/
def Mute (c : Connection T) (h : List (Effect T)) : Prop := c.socketOpen = false ∧ putBytes h = []

theorem Mute.step {e o} (hm : Mute c h) (hn : c.next e = some (c', o)) : Mute c' (h ++ o) := by
  obtain ⟨hclosed, hput⟩ := hm
  have hws := next_writeStep hn
  constructor
  · cases ho : c'.socketOpen with
    | false => rfl
    | true => rw [hws.isOpen ho] at hclosed; cases hclosed
  · rw [putBytes_append, hput, nil_append]
    cases hws with
    | quiet _ _ hst => exact hst.put
    | wake _ _ hst => exact hst.put
    | solve _ _ _ hst => exact hst.put
    | put _ _ _ _ _ hop _ _ => rw [hop] at hclosed; cases hclosed
    | wrote _ _ _ _ _ _ _ _ hst => exact hst.put
    | writeFail => rfl

structure AnswerInv (c : Connection T) (h : List (Effect T)) : Prop where
  owner : c.nOwnerType = .client
  chain : ChainInv c h
  read : ReadInv c h
  linked : c.Linked
  wire : WireInv c h ∨ Mute c h
  live : c.socketOpen = true → ∀ op ∈ c.writes, op.live = true

theorem Reading.connecting_eq_false (hr : Reading c h) (ho : c.nOwnerType = .client)
    (ha : answers h ≠ []) : c.connecting = false := by
  cases hr with
  | connecting _ _ _ _ _ hu => exact absurd (hu.answers ho).1 ha
  | awaiting _ hcn _ _ _ _ => exact hcn
  | lost hcn _ _ _ => exact hcn
  | answering _ _ hcn _ _ _ _ => exact hcn
  | refused _ hcn _ _ _ => exact hcn
  | header _ _ _ hcn _ _ _ _ _ => exact hcn
  | body _ _ _ _ hcn _ _ _ _ _ _ _ => exact hcn
  | ended _ _ _ hcn _ _ _ _ => exact hcn

/-- Before its answer a client that runs no `Send` task has no write outstanding. -/
theorem AnswerInv.writes_eq_nil (hi : AnswerInv c h) (hop : c.socketOpen = true)
    (ha : answers h = []) : c.writes = [] := by
  rcases hi.wire with hw | hm
  · have hruns := hw.client hi.owner ha
    rw [hi.chain.queue, append_eq_nil_iff] at hruns
    refine Connection.writes_eq_nil.mpr ⟨hi.chain.idle hruns.2, ?_⟩
    by_contra hne
    obtain ⟨hs, _, _, _, _, hu⟩ := hi.read.reading.of_answering hi.owner (length_pos_iff.mpr hne)
    rw [hu.heard.answers hi.owner] at ha
    cases ha
  · rw [hm.1] at hop; cases hop

/-- A write that starts while the socket is open starts on a connected socket. -/
theorem AnswerInv.connected {e} (hi : AnswerInv c h) (hg : AnswersFirst c h e)
    (hop : c.socketOpen = true)
    (hq : c.wakes e = true ∨ c.solves e = true ∨ c.writes ≠ []) : c.socketConnected = true := by
  apply hi.linked hop
  rcases hq with hw | hs | hne
  · rcases hg.2 (wakes_iff.mp hw).1 with ha | hcl
    · exact hi.read.reading.connecting_eq_false hi.owner ha
    · rw [hop] at hcl; cases hcl
  · cases e with
    | readOk j bs => exact (hi.read.of_solves hs).2.2.2
    | _ => cases hs
  · exact hi.read.reading.connecting_eq_false hi.owner fun ha => hne (hi.writes_eq_nil hop ha)

theorem AnswerInv.step {e o} (hi : AnswerInv c h) (hg : AnswersFirst c h e)
    (hn : c.next e = some (c', o)) : AnswerInv c' (h ++ o) := by
  refine ⟨(next_readStep hn).owner.trans hi.owner, hi.chain.step (next_chainStep hn),
    hi.read.step (next_readStep hn), hi.linked.step hn, ?_, ?_⟩
  · rcases hi.wire with hw | hm
    · by_cases hq : c.runsSend e = true ∧ answers h = []
      · -- a `Send` task before the answer: the socket is closed, and nothing has gone out
        obtain ⟨hrun, ha⟩ := hq
        have hcl := (hg.2 hrun).resolve_left fun hne => hne ha
        have hput : putBytes h = [] := by
          have hst := hw.started
          rw [hw.order, ha, hi.chain.started_nil (hw.client hi.owner ha)] at hst
          simpa using hst
        exact Or.inr (Mute.step ⟨hcl, hput⟩ hn)
      · refine Or.inl (hw.step hi.chain hi.read ⟨hg.1, fun _ hrun ha => hq ⟨hrun, ha⟩⟩ hn)
    · exact Or.inr (hm.step hn)
  · intro hop'
    have hws := next_writeStep hn
    have hop := hws.isOpen hop'
    have hlive := hi.live hop
    have started {ws} (hst : Starts c (c', o) ws) (hcon : ws ≠ [] → c.socketConnected = true) :
        ∀ op ∈ c'.writes, op.live = true := by
      have hwr := hst.writes
      simp only at hwr
      intro op hmem
      rw [hwr, mem_append] at hmem
      rcases hmem with hmem | hmem
      · exact hlive op hmem
      · rw [hst.live op hmem, hop, hcon (ne_nil_of_mem hmem)]; rfl
    cases hws with
    | quiet _ _ hst => exact started hst fun h => absurd rfl h
    | wake msg hw hst => exact started hst fun _ => hi.connected hg hop (Or.inl hw)
    | solve j bs hs hst => exact started hst fun _ => hi.connected hg hop (Or.inr (Or.inl hs))
    | put l₁ l₂ k hw _ _ _ hw' =>
        rw [hw'] 
        simpa [hw, or_imp, forall_and] using hlive
    | wrote l₁ l₂ ws hw _ _ _ _ hst =>
        have hcon := hi.connected hg hop (Or.inr (Or.inr (by simp [hw])))
        have hwr := hst.writes
        simp only at hwr
        intro op hmem
        rw [hwr, mem_append] at hmem
        rcases hmem with hmem | hmem
        · apply hlive op
          rw [hw]
          exact ((sublist_cons_self _ _).append_left l₁).subset hmem
        · rw [hst.live op hmem]
          simp [hop, hcon]
    | writeFail _ _ _ _ hcl => rw [hcl] at hop'; cases hop'

theorem run_answerInv (hr : (machine T).Run AnswersFirst connected [] c h) : AnswerInv c h := by
  refine hr.invariant ⟨rfl, Start.client.chainInv, Start.client.readInv, ?_,
    Or.inl Start.client.wireInv, ?_⟩ fun _ _ _ _ _ hi hg hn => hi.step hg hn
  · intro _ hcn
    simp [connected, connectToServer, construct] at hcn
  · intro _ op hop
    cases hop

/-! ## The server's end -/

/-- A server connection whose bytes go out in order puts its nonce on the wire first. -/
theorem run_accepted_put {nonce msgs approve uid}
    (hr : (machine T).Run (fun c _ e => c.inOrder e = true) (accepted nonce msgs approve uid).1
      (accepted nonce msgs approve uid).2 c h) :
    putBytes h <+: uint64Bytes nonce ++ stream (sends h) := by
  have hs : Start (accepted (T := T) nonce msgs approve uid).1 _ := .server nonce msgs approve uid
  obtain ⟨ho, hout, -⟩ := run_accepted hr
  have hinv : (c.nOwnerType = .server ∧ ChainInv c h ∧ ReadInv c h) ∧ WireInv c h := by
    refine hr.invariant (P := fun c h => (c.nOwnerType = .server ∧ ChainInv c h ∧ ReadInv c h) ∧
      WireInv c h) ⟨⟨(run_accepted (h := _) (G := Mealy.free) .refl).1, hs.chainInv, hs.readInv⟩,
        hs.wireInv⟩ ?_
    rintro c h e c' o ⟨⟨ho, hc, hr⟩, hw⟩ hg hn
    refine ⟨⟨(next_readStep hn).owner.trans ho, hc.step (next_chainStep hn),
      hr.step (next_readStep hn)⟩, hw.step hc hr ⟨hg, fun hcl => ?_⟩ hn⟩
    rw [ho] at hcl; cases hcl
  rw [← hout]
  exact hinv.2.server_put hinv.1.2.1 ho

theorem ReadStep.rejected {e o} (hs : ReadStep c c' e o) (hi : ReadInv c h)
    (hx : Effect.rejected ∈ o) : ∃ bs, bs.length = 8 ∧ tookBytes (h ++ o) = bs ∧
      bs ≠ uint64Bytes c.nHandshakeCheck := by
  cases hs with
  | other hoff _ => simpa [Effect.onReader] using hoff _ hx
  | took l₁ l₂ bs hr hl =>
      rename_i op
      cases hk : op.kind with
      | validation =>
          obtain ⟨-, hz, -, hsize⟩ := hi.reading.of_validation (by simp [hr]) hk
          rw [hk] at hx
          rcases c.role with ho | ho <;> simp only [onRead, onReadValidation, ho] at hx
          · simp at hx
          · split at hx
            · simp at hx
            · rename_i hne
              refine ⟨bs, hl.trans hsize, ?_, fun he => hne ?_⟩
              · simp [onRead, onReadValidation, ho, hne, hz]
              · rw [he, uint64OfBytes_uint64Bytes]
      | header =>
          rw [hk] at hx
          simp only [onRead, onReadHeader] at hx
          split at hx <;>
            simp [addToIncomingMessageQueue] at hx
      | body =>
          rw [hk] at hx
          simp [onRead, onReadBody, addToIncomingMessageQueue] at hx
  | wrote _ ws _ =>
      rcases c.role with ho | ho <;> simp [onWriteValidation, ho] at hx
  | connected => simp at hx
  | connectFailed => simp at hx
  | readFail => simp at hx
  | writeFail => simp at hx

theorem Start.run_rejected {c₀ : Connection T} {h₀ G} (hs : Start c₀ h₀)
    (hr : (machine T).Run G c₀ h₀ c h) (hx : Effect.rejected ∈ h) :
    ∃ bs, bs.length = 8 ∧ bs <+: tookBytes h ∧ bs ≠ uint64Bytes c.nHandshakeCheck := by
  refine (hr.invariant (P := fun c h => ReadInv c h ∧ (Effect.rejected ∈ h → ∃ bs, bs.length = 8 ∧
    bs <+: tookBytes h ∧ bs ≠ uint64Bytes c.nHandshakeCheck)) ⟨hs.readInv, fun hx => ?_⟩ ?_).2 hx
  · cases hs with
    | client => cases hx
    | server nonce msgs approve uid =>
        cases approve with
        | true => simp [accepted_approved] at hx
        | false => simp [accepted_denied] at hx
  · rintro c h e c' o ⟨hi, hp⟩ - hn
    have hrs := next_readStep hn
    refine ⟨hi.step hrs, fun hx => ?_⟩
    rw [hrs.sameSelf.check]
    rcases mem_append.mp hx with hx | hx
    · obtain ⟨bs, hl, ht, hne⟩ := hp hx
      exact ⟨bs, hl, ht.trans (by rw [tookBytes_append]; exact prefix_append _ _), hne⟩
    · obtain ⟨bs, hl, ht, hne⟩ := hrs.rejected hi hx
      exact ⟨bs, hl, ht ▸ prefix_rfl, hne⟩

end Connection

end AsioNetworking
