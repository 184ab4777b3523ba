import AsioNetworking.Connection.Answer
import AsioNetworking.Delivery

/-!
# Connections at rest

As long as its socket is open a connection has failed at nothing, and it has a read outstanding, or
the answer whose end starts one. When it cannot go on, it has put all that it was given on the wire,
and it has passed on all that came.
-/

namespace AsioNetworking

open List Framing

variable {T : Type}

/-- An operation has failed, or a wrong answer was read. -/
def Effect.isFailure : Effect T → Bool
  | .readFail _ _ | .writeFail _ | .rejected => true
  | _ => false

namespace Connection

/-! ## Open sockets -/

theorem not_failed {o : List (Effect T)} (ho : ∀ x ∈ o, x.isFailure = false) :
    chainFailed o = false ∧ readEnded o = false := by
  induction o with
  | nil => exact ⟨rfl, rfl⟩
  | cons x o ih =>
      obtain ⟨h1, h2⟩ := ih fun y hy => ho y (mem_cons_of_mem _ hy)
      have hx := ho x mem_cons_self
      cases x <;> simp_all [Effect.isFailure]

variable [IdType T] {c c' : Connection T} {h o : List (Effect T)} {e : Event T}

theorem popFront_isFailure (c : Connection T) : ∀ x ∈ c.popFront.2, x.isFailure = false := by
  cases hq : c.qMessagesOut with
  | nil => simp [popFront, hq, Effect.isFailure]
  | cons m q => rcases popFront_eq hq with ⟨_, he⟩ | ⟨m', q', _, he⟩ <;> simp [he, Effect.isFailure]

theorem onWrite_isFailure (kind : OpKind) (c : Connection T) :
    ∀ x ∈ (onWrite kind c).2, x.isFailure = false := by
  cases kind with
  | validation =>
      simp only [onWrite, onWriteValidation]
      split <;> simp [Effect.isFailure]
  | body => exact popFront_isFailure c
  | header =>
      simp only [onWrite, onWriteHeader]
      split
      · simp [Effect.isFailure]
      · split
        · simp only [writeBody]
          split <;> simp [Effect.isFailure]
        · exact popFront_isFailure c

theorem onRead_isFailure (kind : OpKind) (bs : List UInt8) (c : Connection T)
    (ho : (onRead kind bs c).1.socketOpen = true) :
    ∀ x ∈ (onRead kind bs c).2, x.isFailure = false := by
  cases kind with
  | validation =>
      simp only [onRead, onReadValidation] at ho ⊢
      split at ho
      · simp [Effect.isFailure]
      · split at ho
        · rename_i hcheck
          simp [hcheck, Effect.isFailure]
        · cases ho
  | header =>
      simp only [onRead, onReadHeader]
      split <;> simp [addToIncomingMessageQueue, Effect.isFailure]
  | body => simp [onRead, onReadBody, addToIncomingMessageQueue, Effect.isFailure]

theorem runTask_isFailure (task : Task T) (c : Connection T) :
    ∀ x ∈ (runTask task c).2, x.isFailure = false := by
  cases task with
  | close => simp [runTask]
  | send msg =>
      simp only [runTask, sendTask]
      split
      · simp only [Result.andThen, writeHeader]
        split <;> simp [Effect.isFailure]
      · simp [Effect.isFailure]

/-- A step that leaves the socket open is no failure. -/
theorem Step.isFailure (hs : Step c e c' o) (ho : c'.socketOpen = true) :
    ∀ x ∈ o, x.isFailure = false := by
  cases hs with
  | runTask task tasks _ => exact runTask_isFailure task _
  | readOk l₁ l₂ bs _ _ _ => simpa [Effect.isFailure] using onRead_isFailure _ bs _ ho
  | writeOk l₁ l₂ _ _ _ => simpa [Effect.isFailure] using onWrite_isFailure _ _
  | readFail => cases ho
  | writeFail => cases ho
  | _ => simp [Effect.isFailure]

/-- The next handshake or frame is on its way to the reader: the connection is being made, a read is
outstanding, or the end of the client's answer is going to start one. -/
def Attentive (c : Connection T) : Prop :=
  c.connecting = true ∨ c.reads ≠ [] ∨ c.nOwnerType = .client ∧ c.answering = 1

theorem Attentive.step (ha : c.Attentive) (hi : ReadInv c h) (hs : ReadStep c c' e o)
    (ho : c'.socketOpen = true) : c'.Attentive := by
  cases hs with
  | other _ hsame =>
      rw [Attentive, hsame.connecting, hsame.reads, hsame.owner, hsame.answering]
      exact ha
  | connected => exact .inr (.inl (by simp))
  | connectFailed => cases ho
  | took l₁ l₂ bs hr hl =>
      rename_i op
      cases hk : op.kind with
      | validation =>
          rw [hk] at ho
          rcases c.role with hrole | hrole <;> simp only [onRead, onReadValidation, hrole] at ho ⊢
          · have hmem : op ∈ c.reads := by simp [hr]
            obtain ⟨hu, -⟩ := hi.reading.of_validation hmem hk
            refine .inr (.inr ⟨rfl, ?_⟩)
            have hz := (hu.answers hrole).2
            simp only [answering, answerWrites, length_eq_zero_iff] at hz
            simp [answering, answerWrites, hz]
          · split at ho
            · rename_i hcheck
              exact .inr (.inl (by simp [hcheck]))
            · cases ho
      | header =>
          refine .inr (.inl ?_)
          simp only [onRead, onReadHeader]
          split <;> simp [addToIncomingMessageQueue]
      | body => exact .inr (.inl (by simp [onRead, onReadBody, addToIncomingMessageQueue]))
  | readFail => cases ho
  | wrote j ws hws =>
      rcases c.role with hrole | hrole
      · exact .inr (.inl (by simp [onWriteValidation, hrole]))
      · simp only [onWriteValidation, hrole]
        rcases ha with hcn | hr | ⟨hcl, -⟩
        · exact .inl hcn
        · exact .inr (.inl hr)
        · rw [hrole] at hcl
          cases hcl
  | writeFail => cases ho

/-- A read that is outstanding was outstanding before, or started in the step. -/
theorem ReadStep.reads (hs : ReadStep c c' e o) :
    ∀ op ∈ c'.reads, op ∈ c.reads ∨ op.live = (c'.socketOpen && c'.socketConnected) := by
  have started {l₁ l₂ : List ReadOp} {op : ReadOp} {kind size b} (hr : c.reads = l₁ ++ op :: l₂) :
      ∀ op' ∈ l₁ ++ l₂ ++ [⟨kind, size, b⟩], op' ∈ c.reads ∨ op'.live = b := by
    intro op' hmem
    rcases mem_append.mp hmem with hmem | hmem
    · refine .inl ?_
      rw [hr]
      exact ((sublist_cons_self _ _).append_left l₁).subset hmem
    · rw [mem_singleton.mp hmem]
      exact .inr rfl
  cases hs with
  | other _ hsame => exact fun op hop => .inl (hsame.reads ▸ hop)
  | connected =>
      intro op hop
      rcases mem_append.mp hop with hop | hop
      · exact .inl hop
      · rw [mem_singleton.mp hop]
        exact .inr rfl
  | connectFailed => exact fun op hop => .inl hop
  | took l₁ l₂ bs hr _ =>
      rename_i op _
      cases hk : op.kind with
      | validation =>
          rcases c.role with hrole | hrole <;> simp only [onRead, onReadValidation, hrole]
          · intro op hop
            refine .inl ?_
            rw [hr]
            exact ((sublist_cons_self _ _).append_left l₁).subset hop
          · split
            · exact started hr
            · intro op hop
              refine .inl ?_
              rw [hr]
              exact ((sublist_cons_self _ _).append_left l₁).subset hop
      | header =>
          simp only [onRead, onReadHeader]
          split <;> exact started hr
      | body => exact started hr
  | readFail l₁ l₂ bs hr _ =>
      intro op hop
      refine .inl ?_
      rw [hr]
      exact ((sublist_cons_self _ _).append_left l₁).subset hop
  | wrote j ws hws =>
      rcases c.role with hrole | hrole <;> simp only [onWriteValidation, hrole]
      · intro op hop
        rcases mem_append.mp hop with hop | hop
        · exact .inl hop
        · rw [mem_singleton.mp hop]
          exact .inr rfl
      · exact fun op hop => .inl hop
  | writeFail => exact fun op hop => .inl hop

/-- What holds of a connection as long as its socket is open. -/
structure OpenInv (c : Connection T) (h : List (Effect T)) : Prop where
  read : ReadInv c h
  linked : c.Linked
  unfailed : c.socketOpen = true → chainFailed h = false
  attentive : c.socketOpen = true → c.Attentive
  live : c.socketOpen = true → ∀ op ∈ c.reads, op.live = true

theorem OpenInv.step (hi : OpenInv c h) (hn : c.next e = some (c', o)) : OpenInv c' (h ++ o) := by
  have hrs := next_readStep hn
  have hread := hi.read.step hrs
  have hlinked := hi.linked.step hn
  have before (ho : c'.socketOpen = true) := (next_writeStep hn).isOpen ho
  refine ⟨hread, hlinked, fun ho => ?_, fun ho => ?_, fun ho op hop => ?_⟩
  · rw [chainFailed_append, hi.unfailed (before ho),
      (not_failed ((next_step hn).isFailure ho)).1]
    rfl
  · exact (hi.attentive (before ho)).step hi.read hrs ho
  · rcases hrs.reads op hop with hop' | hlive
    · exact hi.live (before ho) op hop'
    · obtain ⟨l₁, l₂, hr⟩ := append_of_mem hop
      obtain ⟨-, -, hcn, -, -⟩ := hread.reading.awaits hr
      rw [hlive, ho, hlinked ho hcn]
      rfl

/-- A reader that waits for more than the bytes that are on their way, the last of a handshake and of
the messages `ms`, has passed all of them on. -/
theorem pushes_all (hr : Reading c h) {hs inp : List UInt8} (hl : hs.length = 8)
    {ms : List (Message T)} (hf : ∀ m ∈ ms, m.Framed) (ht : tookBytes h ++ inp = hs ++ stream ms)
    (hreads : c.reads ≠ []) (hwait : ∀ op ∈ c.reads, inp.length < op.size) :
    inp = [] ∧ pushes h = deliver [] ms := by
  obtain ⟨op, ops, he⟩ := exists_cons_of_ne_nil hreads
  have hlt := hwait op (by simp [he])
  have hsplit : c.reads = [] ++ op :: ops := he
  obtain ⟨-, -, -, -, haw⟩ := hr.awaits hsplit
  -- the bytes after the frames that were read are less than a frame
  have finish {hs' fs rest} (hu : Heard c h hs' fs rest)
      (hsp : split (frameFormat T) (rest ++ inp) = none) : inp = [] ∧ pushes h = deliver [] ms := by
    rw [hu.took, append_assoc, append_assoc, ← join_framesOf ms hf] at ht
    obtain ⟨-, hj⟩ := append_inj ht (hu.length.trans hl.symm)
    obtain ⟨rfl, hnil⟩ := join_append_eq_join hsp hj
    exact ⟨(append_eq_nil_iff.mp hnil).2, by rw [hu.pushes, receive_framesOf]⟩
  cases haw with
  | validation _ hz _ =>
      have hlen := congrArg length ht
      rw [hz, nil_append, length_append, hl] at hlen
      simp only at hlt
      omega
  | header hs' fs _ hu _ _ => exact finish hu (split_eq_none_of_lt (.inl hlt))
  | body hs' fs bs _ hu _ hlen _ _ =>
      have htake : take (frameFormat T).headerLen (bs ++ inp) = bs := take_left' hlen
      refine finish hu (split_eq_none_of_lt (.inr ?_))
      rw [htake, length_append, hlen]
      exact Nat.add_lt_add_left hlt _

/-! ## Steps that a connection takes by itself -/

/-- A task or a handler runs without an error, or bytes go out. -/
def moves : Event T → Bool
  | .runTask | .readOk _ _ | .writeOk _ => true
  | .put _ k => 0 < k
  | _ => false

/-- The bytes that the event takes from the wire. -/
def taken : Event T → List UInt8
  | .readOk _ bs | .readFail _ bs => bs
  | _ => []

theorem tookBytes_onRead (kind : OpKind) (bs : List UInt8) (c : Connection T) :
    tookBytes (onRead kind bs c).2 = [] := by
  cases kind with
  | validation =>
      simp only [onRead, onReadValidation]
      split
      · rfl
      · split <;> simp
  | header =>
      simp only [onRead, onReadHeader]
      split <;> simp [addToIncomingMessageQueue]
  | body => simp [onRead, onReadBody, addToIncomingMessageQueue]

theorem tookBytes_onWrite (kind : OpKind) (c : Connection T) : tookBytes (onWrite kind c).2 = [] := by
  cases hk : kind.isChain with
  | true => exact (offReader_projections (offReader_onWrite hk c).1).1
  | false =>
      rw [eq_validation hk]
      simp only [onWrite, onWriteValidation]
      split <;> rfl

theorem Step.tookBytes (hs : Step c e c' o) : AsioNetworking.tookBytes o = taken e := by
  cases hs with
  | runTask task tasks _ =>
      cases task with
      | send msg => exact (offReader_projections (offReader_sendTask msg _).1).1
      | close => rfl
  | readOk l₁ l₂ bs _ _ _ => simp [taken, tookBytes_onRead]
  | readFail => simp [taken]
  | writeOk l₁ l₂ _ _ _ => simp [taken, tookBytes_onWrite]
  | _ => rfl

/-- The oldest write goes on, or its handler runs. -/
theorem exists_write_move (ho : c.socketOpen = true) (hl : ∀ op ∈ c.writes, op.live = true)
    (hw : c.writes ≠ []) : ∃ e, moves e = true ∧ c.inOrder e = true ∧ c.runsSend e = false ∧
      taken e = [] ∧ (c.next e).isSome = true := by
  obtain ⟨op, ops, he⟩ := exists_cons_of_ne_nil hw
  have hlive := hl op (by simp [he])
  by_cases hrest : op.rest = []
  · exact ⟨.writeOk 0, rfl, rfl, rfl, rfl, by simp [next, he, hlive, hrest]⟩
  · exact ⟨.put 0 op.rest.length, by simpa [moves] using length_pos_iff.mpr hrest, rfl, rfl, rfl,
      by simp [next, he, hlive, ho]⟩

/-- The oldest read is done when the bytes that it waits for are there. -/
theorem readOk_isSome {op ops} {inp : List UInt8} (he : c.reads = op :: ops) (hl : op.live = true)
    (hsize : op.size ≤ inp.length) : (c.next (.readOk 0 (inp.take op.size))).isSome = true := by
  simp [next, he, hl, hsize]

/-- With the bytes `inp` on their way, the connection takes no step by itself, but for the run of a
`Send` task. -/
def Still (c : Connection T) (inp : List UInt8) : Prop :=
  ∀ e, moves e = true → c.inOrder e = true → c.runsSend e = false → taken e <+: inp → c.next e = none

variable {inp : List UInt8}

theorem Still.writes (hs : c.Still inp) (ho : c.socketOpen = true)
    (hl : ∀ op ∈ c.writes, op.live = true) : c.writes = [] := by
  by_contra hne
  obtain ⟨e, hm, hord, hrun, ht, hsome⟩ := exists_write_move ho hl hne
  rw [hs e hm hord hrun (ht ▸ nil_prefix)] at hsome
  cases hsome

theorem Still.waits (hs : c.Still inp) (hi : OpenInv c h) (ho : c.socketOpen = true) :
    ∀ op ∈ c.reads, inp.length < op.size := by
  intro op hop
  obtain ⟨l₁, l₂, he⟩ := append_of_mem hop
  obtain ⟨rfl, -⟩ := hi.read.reading.awaits he
  by_contra hlt
  have hsome := readOk_isSome he (hi.live ho op hop) (Nat.not_lt.mp hlt)
  have htake : inp.take op.size <+: inp := take_prefix _ _
  rw [hs (.readOk 0 (inp.take op.size)) rfl rfl rfl htake] at hsome
  cases hsome

/-- An open connection that takes no step by itself has passed on all that came. -/
theorem Still.passed (hs : c.Still inp) (hi : OpenInv c h) (ho : c.socketOpen = true)
    (hcn : c.connecting = false) (hw : c.writes = []) {hsk : List UInt8} (hl : hsk.length = 8)
    {ms : List (Message T)} (hf : ∀ m ∈ ms, m.Framed)
    (ht : AsioNetworking.tookBytes h ++ inp = hsk ++ stream ms) :
    inp = [] ∧ pushes h = deliver [] ms := by
  refine pushes_all hi.read.reading hl hf ht ?_ (hs.waits hi ho)
  rcases hi.attentive ho with hcon | hr | ⟨-, ha⟩
  · rw [hcn] at hcon
    cases hcon
  · exact hr
  · simp [answering, answerWrites, hw] at ha

end Connection

end AsioNetworking
