import AsioNetworking.Connection.Start

/-!
# The writes of a connection

Two sources start writes on one socket: the handshake and the message chain. `WriteStep` says once
what a step does to the outstanding writes.
-/

namespace AsioNetworking

open List

variable {T : Type}

/-- The entry starts a write or puts bytes on the wire. -/
def Effect.onWire : Effect T → Bool
  | .startWrite _ _ | .put _ _ => true
  | _ => false

namespace Connection

/-! ## Which events start a write -/

def runsSend (c : Connection T) : Event T → Bool
  | .runTask => match c.posted with
    | .send _ :: _ => true
    | _ => false
  | _ => false

/-- The event runs a `Send` task that finds `m_qMessagesOut` empty. -/
def wakes (c : Connection T) (e : Event T) : Bool := c.runsSend e && c.qMessagesOut.isEmpty

def solves (c : Connection T) : Event T → Bool
  | .readOk j _ => match c.reads[j]? with
    | some op => c.nOwnerType = .client && op.kind = .validation
    | none => false
  | _ => false

/-- The bytes of a write go out after those of the writes started before it. -/
def inOrder (c : Connection T) : Event T → Bool
  | .put j _ => (c.writes.take j).all (·.rest.isEmpty)
  | _ => true

/-! ## What a step does to the writes -/

/-- The result `r` of a handler run in `c` starts the writes `ws`. -/
structure Starts (c : Connection T) (r : Result T) (ws : List WriteOp) : Prop where
  writes : r.1.writes = c.writes ++ ws
  started : startedBytes r.2 = ws.flatMap (·.rest)
  chain : chainStarted r.2 = (ws.filter (·.kind.isChain)).flatMap (·.rest)
  answers : answers r.2 = (ws.filter (!·.kind.isChain)).map (·.rest)
  put : putBytes r.2 = []
  live : ∀ op ∈ ws, op.live = (c.socketOpen && c.socketConnected)
  isOpen : r.1.socketOpen = true → c.socketOpen = true

theorem Starts.of_same {c c₁ : Connection T} {r : Result T} {ws} (hr : Starts c₁ r ws)
    (hw : c₁.writes = c.writes) (ho : c₁.socketOpen = c.socketOpen)
    (hc : c₁.socketConnected = c.socketConnected) : Starts c r ws :=
  ⟨hw ▸ hr.writes, hr.started, hr.chain, hr.answers, hr.put, ho ▸ hc ▸ hr.live, ho ▸ hr.isOpen⟩

/-- What the histories say of effects that neither start a write nor put bytes on the wire. -/
theorem offWire_projections {o : List (Effect T)} (ho : ∀ x ∈ o, x.onWire = false) :
    startedBytes o = [] ∧ chainStarted o = [] ∧ answers o = [] ∧ putBytes o = [] := by
  induction o with
  | nil => simp
  | cons x o ih =>
      obtain ⟨h1, h2, h3, h4⟩ := ih fun y hy => ho y (mem_cons_of_mem _ hy)
      have hx := ho x mem_cons_self
      cases x <;> simp_all [Effect.onWire]

theorem starts_nothing {c : Connection T} {r : Result T} (hw : r.1.writes = c.writes)
    (ho : r.1.socketOpen = true → c.socketOpen = true) (hx : ∀ x ∈ r.2, x.onWire = false) :
    Starts c r [] := by
  obtain ⟨h1, h2, h3, h4⟩ := offWire_projections hx
  exact ⟨by simp [hw], h1, h2, h3, h4, by simp, ho⟩

theorem Starts.andThen {c c₁ : Connection T} {o : List (Effect T)} {f : Connection T → Result T}
    {ws} (hf : Starts c₁ (f c₁) ws) (hw : c₁.writes = c.writes)
    (ho : c₁.socketOpen = c.socketOpen) (hc : c₁.socketConnected = c.socketConnected)
    (hx : ∀ x ∈ o, x.onWire = false) : Starts c (Result.andThen (c₁, o) f) ws := by
  obtain ⟨hs, hch, ha, hp⟩ := offWire_projections hx
  obtain ⟨h1, h2, h3, h4, h5, h6, h7⟩ := hf.of_same hw ho hc
  exact ⟨h1, by simp [Result.andThen, hs, h2], by simp [Result.andThen, hch, h3],
    by simp [Result.andThen, ha, h4], by simp [Result.andThen, hp, h5], h6, h7⟩

theorem Starts.cons {c c₁ : Connection T} {r : Result T} {x ws} (hr : Starts c₁ r ws)
    (hw : c₁.writes = c.writes) (ho : c₁.socketOpen = c.socketOpen)
    (hc : c₁.socketConnected = c.socketConnected) (hx : x.onWire = false) :
    Starts c (r.1, x :: r.2) ws :=
  (show Starts c (Result.andThen (c₁, [x]) fun _ => r) ws from
    Starts.andThen hr hw ho hc (by simp [hx]))

theorem starts_startRead (kind : OpKind) (size : Nat) (c : Connection T) :
    Starts c (c.startRead kind size) [] :=
  starts_nothing rfl (fun ho => ho) (by simp [Effect.onWire])

theorem starts_startWrite (kind : OpKind) (bytes : List UInt8) (c : Connection T) :
    Starts c (c.startWrite kind bytes) [⟨kind, bytes, c.socketOpen && c.socketConnected⟩] := by
  refine ⟨rfl, by simp, ?_, ?_, rfl, by simp, fun ho => ho⟩
  · cases kind <;> simp [OpKind.isChain]
  · cases kind <;> simp [OpKind.isChain]

variable [IdType T]

theorem starts_addToIncomingMessageQueue (c : Connection T) :
    Starts c c.addToIncomingMessageQueue [] :=
  (starts_startRead _ _ c).andThen rfl rfl rfl (by simp [Effect.onWire])

theorem starts_onReadHeader (bs : List UInt8) (c : Connection T) :
    Starts c (c.onReadHeader bs) [] := by
  unfold onReadHeader
  simp only
  split
  · exact (starts_startRead _ _ _).of_same rfl rfl rfl
  · exact (starts_addToIncomingMessageQueue _).of_same rfl rfl rfl

theorem starts_solve {c : Connection T} (ho : c.nOwnerType = .client) (bs : List UInt8) :
    Starts c (c.onReadValidation bs) [⟨.validation, uint64Bytes (scramble (uint64OfBytes bs)),
      c.socketOpen && c.socketConnected⟩] := by
  simp only [onReadValidation, ho]
  exact (starts_startWrite _ _ _).of_same rfl rfl rfl

theorem starts_compare {c : Connection T} (ho : c.nOwnerType = .server) (bs : List UInt8) :
    Starts c (c.onReadValidation bs) [] := by
  simp only [onReadValidation, ho]
  split
  · exact (starts_startRead _ _ _).andThen rfl rfl rfl (by simp [Effect.onWire])
  · exact starts_nothing rfl (by simp [close]) (by simp [Effect.onWire])

theorem starts_popFront (c : Connection T) :
    ∃ ws, ws.length ≤ 1 ∧ (∀ op ∈ ws, op.kind.isChain = true) ∧ Starts c c.popFront ws := by
  cases hq : c.qMessagesOut with
  | nil =>
      simp only [popFront, hq]
      exact ⟨[], by simp, by simp, starts_nothing rfl (fun ho => ho) (by simp [Effect.onWire])⟩
  | cons m q =>
      rcases popFront_eq hq with ⟨_, he⟩ | ⟨m', q', _, he⟩
      · rw [he]
        exact ⟨[], by simp, by simp, starts_nothing rfl (fun ho => ho) (by simp [Effect.onWire])⟩
      · rw [he]
        obtain ⟨h1, h2, h3, h4, h5, h6, h7⟩ :=
          starts_startWrite .header m'.header.toBytes { c with qMessagesOut := q }
        exact ⟨_, by simp, by simp, h1, h2, h3, h4, h5, h6, h7⟩

theorem starts_onWrite (kind : OpKind) (c : Connection T) :
    ∃ ws, ws.length ≤ 1 ∧ (∀ op ∈ ws, op.kind.isChain = true) ∧ Starts c (onWrite kind c) ws := by
  cases kind with
  | validation =>
      refine ⟨[], by simp, by simp, ?_⟩
      simp only [onWrite, onWriteValidation]
      split
      · exact starts_startRead _ _ c
      · exact starts_nothing rfl (fun ho => ho) (by simp)
  | body => exact starts_popFront c
  | header =>
      simp only [onWrite, onWriteHeader]
      split
      · exact ⟨[], by simp, by simp, starts_nothing rfl (fun ho => ho) (by simp [Effect.onWire])⟩
      · split
        · rename_i msg q hq _
          simp only [writeBody, hq]
          exact ⟨_, by simp, by simp, starts_startWrite _ _ c⟩
        · exact starts_popFront c

inductive WriteStep (c c' : Connection T) : Event T → List (Effect T) → Prop where
  | quiet {e o} : c.wakes e = false → c.solves e = false → Starts c (c', o) [] → WriteStep c c' e o
  | wake {o} (msg : Message T) : c.wakes .runTask = true → Starts c (c', o)
      [⟨.header, msg.header.toBytes, c.socketOpen && c.socketConnected⟩] → WriteStep c c' .runTask o
  | solve {o} (j bs) : c.solves (.readOk j bs) = true → Starts c (c', o)
      [⟨.validation, uint64Bytes (scramble (uint64OfBytes bs)), c.socketOpen && c.socketConnected⟩] →
      WriteStep c c' (.readOk j bs) o
  | put {op : WriteOp} (l₁ l₂ k) : c.writes = l₁ ++ op :: l₂ → op.live = true →
      c.socketOpen = true → c'.socketOpen = true →
      c'.writes = l₁ ++ { op with rest := op.rest.drop k } :: l₂ →
      WriteStep c c' (.put l₁.length k) [.put op.kind (op.rest.take k)]
  | wrote {op : WriteOp} {o} (l₁ l₂ ws) : c.writes = l₁ ++ op :: l₂ → op.live = true →
      op.rest = [] → ws.length ≤ 1 → (∀ op ∈ ws, op.kind.isChain = true) →
      Starts { c with writes := l₁ ++ l₂ } (c', o) ws → WriteStep c c' (.writeOk l₁.length) o
  | writeFail {op : WriteOp} (l₁ l₂) : c.writes = l₁ ++ op :: l₂ → c'.writes = l₁ ++ l₂ →
      c'.socketOpen = false → WriteStep c c' (.writeFail l₁.length) [.writeFail op.kind]

theorem next_writeStep {c c' : Connection T} {e o} (hn : c.next e = some (c', o)) :
    WriteStep c c' e o := by
  cases next_step hn with
  | send msg => exact .quiet rfl rfl (starts_nothing rfl (fun ho => ho) (by simp [Effect.onWire]))
  | disconnect => exact .quiet rfl rfl (starts_nothing rfl (fun ho => ho) (by simp))
  | disconnectClosed => exact .quiet rfl rfl (starts_nothing rfl (fun ho => ho) (by simp))
  | runTask task tasks hp =>
      cases task with
      | close =>
          exact .quiet (by simp [wakes, runsSend, hp]) rfl
            (starts_nothing rfl (by simp [runTask, close]) (by simp [runTask]))
      | send msg =>
          cases hq : c.qMessagesOut with
          | nil =>
              apply WriteStep.wake msg (by simp [wakes, runsSend, hp, hq])
              simp only [runTask, sendTask, isEmpty_nil, Bool.not_true, nil_append,
                Bool.not_false, if_true]
              exact (starts_startWrite _ _ _).andThen rfl rfl rfl (by simp [Effect.onWire])
          | cons m q =>
              apply WriteStep.quiet (by simp [wakes, hq]) rfl
              simp only [runTask, sendTask, isEmpty_cons, Bool.not_false, Bool.not_true,
                Bool.false_eq_true, if_false]
              exact (starts_nothing rfl (fun ho => ho) (by simp [Effect.onWire]))
  | established => exact .quiet rfl rfl (starts_nothing rfl (fun ho => ho) (by simp))
  | connected => exact .quiet rfl rfl ((starts_startRead _ _ _).of_same rfl rfl rfl)
  | connectFailed => exact .quiet rfl rfl (starts_nothing rfl (by simp [close]) (by simp))
  | @readOk op l₁ l₂ bs hr =>
      have hj : c.reads[l₁.length]? = some op := by simp [hr]
      cases hk : op.kind with
      | validation =>
          rcases c.role with ho | ho
          · apply WriteStep.solve _ bs (by simp [solves, hj, ho, hk])
            have hst := starts_solve (c := { c with reads := l₁ ++ l₂ }) ho bs
            exact hst.cons rfl rfl rfl rfl
          · apply WriteStep.quiet rfl (by simp [solves, hj, ho])
            have hst := starts_compare (c := { c with reads := l₁ ++ l₂ }) ho bs
            exact hst.cons rfl rfl rfl rfl
      | header =>
          apply WriteStep.quiet rfl (by simp [solves, hj, hk])
          exact (starts_onReadHeader bs _).cons rfl rfl rfl rfl
      | body =>
          apply WriteStep.quiet rfl (by simp [solves, hj, hk])
          exact Starts.cons (starts_addToIncomingMessageQueue _) rfl rfl rfl rfl
  | readFail =>
      exact .quiet rfl rfl (starts_nothing rfl (by simp [close]) (by simp [Effect.onWire]))
  | put l₁ l₂ k hw hl ho _ => exact .put l₁ l₂ k hw hl ho ho rfl
  | @writeOk op l₁ l₂ hw hl hrest =>
      obtain ⟨ws, hlen, hch, hst⟩ := starts_onWrite op.kind { c with writes := l₁ ++ l₂ }
      exact .wrote l₁ l₂ ws hw hl hrest hlen hch (hst.cons rfl rfl rfl rfl)
  | writeFail l₁ l₂ hw => exact .writeFail l₁ l₂ hw rfl rfl

theorem WriteStep.isOpen {c c' : Connection T} {e o} (hs : WriteStep c c' e o)
    (ho : c'.socketOpen = true) : c.socketOpen = true := by
  cases hs with
  | quiet _ _ hst => exact hst.isOpen ho
  | wake _ _ hst => exact hst.isOpen ho
  | solve _ _ _ hst => exact hst.isOpen ho
  | put _ _ _ _ _ hop _ _ => exact hop
  | wrote _ _ _ _ _ _ _ _ hst => exact hst.isOpen ho
  | writeFail _ _ _ _ hop => rw [hop] at ho; cases ho

/-! ## One writer -/

/-- A `Send` task that finds `m_qMessagesOut` empty runs only while no write of the handshake is
outstanding, and a client gets its nonce only while no write of the message chain is. -/
def Alone (c : Connection T) (e : Event T) : Prop :=
  (c.wakes e = true → c.answerWrites = []) ∧ (c.solves e = true → c.chainWrites = [])

instance (c : Connection T) (e : Event T) : Decidable (c.Alone e) :=
  inferInstanceAs (Decidable (_ ∧ _))

omit [IdType T] in
theorem alone_of_starts_nothing {c : Connection T} {e : Event T} (hw : c.wakes e = false)
    (hs : c.solves e = false) : c.Alone e := by
  simp [Alone, hw, hs]

omit [IdType T] in
theorem writes_eq_nil {c : Connection T} :
    c.writes = [] ↔ c.chainWrites = [] ∧ c.answerWrites = [] := by
  simp only [chainWrites, answerWrites, filter_eq_nil_iff]
  constructor
  · intro hw
    simp [hw]
  · rintro ⟨hc, ha⟩
    apply eq_nil_iff_forall_not_mem.mpr
    intro op hop
    have := ha op hop
    simp [hc op hop] at this

variable {c c' : Connection T} {h : List (Effect T)}

theorem ChainInv.idle (hi : ChainInv c h) (hq : c.qMessagesOut = []) : c.chainWrites = [] := by
  obtain ⟨-, -, -, -, p, s, hc, -, -⟩ := hi
  rw [hq] at hc
  generalize hw : c.chainWrites = w at hc
  generalize chainFailed h = f at hc
  cases hc with
  | idle => rfl

omit [IdType T] in
theorem wakes_iff {e : Event T} :
    c.wakes e = true ↔ c.runsSend e = true ∧ c.qMessagesOut = [] := by
  simp [wakes]

/-- While `ReadValidation` is outstanding nothing has been read. -/
theorem Reading.of_validation {op : ReadOp} (hr : Reading c h) (hmem : op ∈ c.reads)
    (hk : op.kind = .validation) :
    Unread c h ∧ tookBytes h = [] ∧ c.connecting = false ∧ op.size = 8 := by
  obtain ⟨l₁, l₂, he⟩ := append_of_mem hmem
  obtain ⟨-, -, hcn, -, haw⟩ := hr.awaits he
  cases haw with
  | validation _ hz hu => exact ⟨hu, hz, hcn, rfl⟩
  | header => cases hk
  | body => cases hk

/-- A client that gets its nonce has answered nothing before. -/
theorem ReadInv.of_solves {j bs} (hi : ReadInv c h) (hs : c.solves (.readOk j bs) = true) :
    c.nOwnerType = .client ∧ Unread c h ∧ tookBytes h = [] ∧ c.connecting = false := by
  simp only [solves] at hs
  split at hs
  · rename_i op hj
    simp only [Bool.and_eq_true, decide_eq_true_eq] at hs
    obtain ⟨ho, hk⟩ := hs
    obtain ⟨hu, hz, hcn, -⟩ := hi.reading.of_validation (mem_of_getElem? hj) hk
    exact ⟨ho, hu, hz, hcn⟩
  · cases hs

/-- A step from at most one write leads to at most one write exactly when it is `Alone`. -/
theorem WriteStep.one_writer {e o} (hstep : WriteStep c c' e o) (hc : ChainInv c h)
    (hr : ReadInv c h) (hone : c.writes.length ≤ 1) : c'.writes.length ≤ 1 ↔ c.Alone e := by
  cases hstep with
  | quiet hw hs hst =>
      have hwr := hst.writes
      simp only [append_nil] at hwr
      simp only [alone_of_starts_nothing hw hs, iff_true, hwr]
      exact hone
  | wake msg hw hst =>
      have hidle := hc.idle (wakes_iff.mp hw).2
      have hs : c.solves .runTask = false := rfl
      have hwr := hst.writes
      simp only at hwr
      simp only [Alone, hw, hs, hwr, length_append, length_singleton, forall_const,
        Bool.false_eq_true, false_implies, and_true]
      rw [show c.answerWrites = [] ↔ c.writes = [] by simp [writes_eq_nil, hidle],
        ← length_eq_zero_iff]
      omega
  | solve j bs hs hst =>
      obtain ⟨ho, hu, -⟩ := hr.of_solves hs
      have ha : c.answerWrites = [] := length_eq_zero_iff.mp (hu.answers ho).2
      have hw : c.wakes (.readOk j bs) = false := rfl
      have hwr := hst.writes
      simp only at hwr
      simp only [Alone, hw, hs, hwr, length_append, length_singleton, forall_const,
        Bool.false_eq_true, false_implies, true_and]
      rw [show c.chainWrites = [] ↔ c.writes = [] by simp [writes_eq_nil, ha],
        ← length_eq_zero_iff]
      omega
  | put l₁ l₂ k hw _ _ _ hw' =>
      have hal : c.Alone (.put l₁.length k) := alone_of_starts_nothing rfl rfl
      simp only [hal, iff_true, hw']
      simpa [hw] using hone
  | wrote l₁ l₂ ws hw _ _ hlen _ hst =>
      have hal : c.Alone (.writeOk l₁.length) := alone_of_starts_nothing rfl rfl
      have hwr := hst.writes
      simp only at hwr
      simp only [hw, length_append, length_cons] at hone
      simp only [hal, iff_true, hwr, length_append]
      omega
  | writeFail l₁ l₂ hw hw' _ =>
      have hal : c.Alone (.writeFail l₁.length) := alone_of_starts_nothing rfl rfl
      simp only [hw, length_append, length_cons] at hone
      simp only [hal, iff_true, hw', length_append]
      omega

end Connection

end AsioNetworking
