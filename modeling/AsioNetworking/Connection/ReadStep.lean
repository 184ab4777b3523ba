import AsioNetworking.Connection.WriteChain

/-!
# Steps of the handshake and of the reader

`ReadStep` says once what a step of a connection can do to the handshake and to the reader.
-/

namespace AsioNetworking

open List

variable {T : Type}

/-- The entry is about the handshake or the reader. -/
def Effect.onReader : Effect T → Bool
  | .startRead _ _ | .took _ _ | .readFail _ _ | .push _ _ | .onClientValidated | .rejected => true
  | .startWrite kind _ | .wrote kind | .writeFail kind => !kind.isChain
  | _ => false

namespace Connection

/-! ## Steps that leave the reader alone -/

def answering (c : Connection T) : Nat := c.answerWrites.length

/-- The parts of the state that the handshake and the reader read and write. -/
structure SameReader (c c' : Connection T) : Prop where
  owner : c'.nOwnerType = c.nOwnerType
  uid : c'.id = c.id
  temp : c'.msgTemporaryIn = c.msgTemporaryIn
  out : c'.nHandshakeOut = c.nHandshakeOut
  check : c'.nHandshakeCheck = c.nHandshakeCheck
  connecting : c'.connecting = c.connecting
  reads : c'.reads = c.reads
  answering : c'.answering = c.answering

def OffReader (c : Connection T) (r : Result T) : Prop :=
  (∀ x ∈ r.2, x.onReader = false) ∧ SameReader c r.1

theorem SameReader.rfl {c : Connection T} : SameReader c c := by constructor <;> exact Eq.refl _

theorem SameReader.trans {c₁ c₂ c₃ : Connection T} (h : SameReader c₁ c₂) (h' : SameReader c₂ c₃) :
    SameReader c₁ c₃ :=
  ⟨h'.owner.trans h.owner, h'.uid.trans h.uid, h'.temp.trans h.temp, h'.out.trans h.out, h'.check.trans h.check,
    h'.connecting.trans h.connecting, h'.reads.trans h.reads, h'.answering.trans h.answering⟩

theorem OffReader.of_same {c c₁ : Connection T} {r : Result T} (hr : OffReader c₁ r)
    (hs : SameReader c c₁) : OffReader c r := ⟨hr.1, hs.trans hr.2⟩

theorem OffReader.andThen {c : Connection T} {r : Result T} {f : Connection T → Result T}
    (hr : OffReader c r) (hf : ∀ c₁, OffReader c₁ (f c₁)) : OffReader c (r.andThen f) := by
  obtain ⟨ho, hs⟩ := hr
  obtain ⟨ho', hs'⟩ := (hf r.1).of_same hs
  refine ⟨fun x hx => ?_, hs'⟩
  rcases mem_append.mp hx with hx | hx
  · exact ho x hx
  · exact ho' x hx

theorem offReader_startWrite {kind : OpKind} (hk : kind.isChain = true) (bytes : List UInt8)
    (c : Connection T) : OffReader c (c.startWrite kind bytes) :=
  ⟨by simp [Effect.onReader, hk], by
    constructor <;> first | rfl | simp [answering, answerWrites, hk]⟩

variable [IdType T]

theorem offReader_writeHeader (c : Connection T) : OffReader c c.writeHeader := by
  unfold writeHeader
  split
  · exact ⟨by simp [Effect.onReader], .rfl⟩
  · exact offReader_startWrite rfl _ _

omit [IdType T] in
theorem offReader_writeBody (c : Connection T) : OffReader c c.writeBody := by
  unfold writeBody
  split
  · exact ⟨by simp [Effect.onReader], .rfl⟩
  · exact offReader_startWrite rfl _ _

theorem offReader_popFront (c : Connection T) : OffReader c c.popFront := by
  unfold popFront
  split
  · exact ⟨by simp [Effect.onReader], .rfl⟩
  · simp only
    split
    · exact ⟨by simp [Effect.onReader], by constructor <;> rfl⟩
    · refine OffReader.andThen ?_ offReader_writeHeader
      exact ⟨by simp [Effect.onReader], by constructor <;> rfl⟩

theorem offReader_onWrite {kind : OpKind} (hk : kind.isChain = true) (c : Connection T) :
    OffReader c (onWrite kind c) := by
  cases kind with
  | validation => cases hk
  | header =>
      simp only [onWrite, onWriteHeader]
      split
      · exact ⟨by simp [Effect.onReader], .rfl⟩
      · split
        · exact offReader_writeBody c
        · exact offReader_popFront c
  | body => exact offReader_popFront c

theorem offReader_sendTask (msg : Message T) (c : Connection T) :
    OffReader c (c.sendTask msg) := by
  unfold sendTask
  simp only
  split
  · refine OffReader.andThen ?_ offReader_writeHeader
    exact ⟨by simp [Effect.onReader], by constructor <;> rfl⟩
  · exact ⟨by simp [Effect.onReader], by constructor <;> rfl⟩

/-! ## What a step can do to the reader -/

/-- A step from `c` to `c'`, as far as the handshake and the reader are concerned. -/
inductive ReadStep (c : Connection T) : Connection T → Event T → List (Effect T) → Prop where
  | other {c' e o} : (∀ x ∈ o, x.onReader = false) → SameReader c c' → ReadStep c c' e o
  | connected (ok) : c.connecting = true →
      ReadStep c (readValidation { c with connecting := false }).1 (.onConnect ok)
        [.startRead .validation 8]
  | connectFailed (ok) : c.connecting = true →
      ReadStep c (close { c with connecting := false }) (.onConnect ok) []
  | took {op : ReadOp} (l₁ l₂ bs) : c.reads = l₁ ++ op :: l₂ → bs.length = op.size →
      ReadStep c (onRead op.kind bs { c with reads := l₁ ++ l₂ }).1 (.readOk l₁.length bs)
        (.took op.kind bs :: (onRead op.kind bs { c with reads := l₁ ++ l₂ }).2)
  | readFail {op : ReadOp} (l₁ l₂ bs) : c.reads = l₁ ++ op :: l₂ →
      (bs = [] ∨ bs.length < op.size) →
      ReadStep c (close { c with reads := l₁ ++ l₂ }) (.readFail l₁.length bs) [.readFail op.kind bs]
  | wrote (j ws) : answering { c with writes := ws } + 1 = c.answering →
      ReadStep c (onWriteValidation { c with writes := ws }).1 (.writeOk j)
        (.wrote .validation :: (onWriteValidation { c with writes := ws }).2)
  | writeFail (j ws) : answering { c with writes := ws } + 1 = c.answering →
      ReadStep c (close { c with writes := ws }) (.writeFail j) [.writeFail .validation]

theorem ReadStep.of_offReader {c : Connection T} {r : Result T} {e} (h : OffReader c r) :
    ReadStep c r.1 e r.2 := .other h.1 h.2

theorem next_readStep {c c' : Connection T} {e o} (hn : c.next e = some (c', o)) :
    ReadStep c c' e o := by
  cases next_step hn with
  | send msg => exact .other (by simp [Effect.onReader]) (by constructor <;> rfl)
  | disconnect => exact .other (by simp) (by constructor <;> rfl)
  | disconnectClosed => exact .other (by simp) .rfl
  | runTask task tasks hp =>
      have hs : SameReader c { c with posted := tasks } := by constructor <;> rfl
      cases task with
      | send msg => exact .of_offReader ((offReader_sendTask msg _).of_same hs)
      | close => exact .other (by simp [runTask]) (by constructor <;> rfl)
  | established => exact .other (by simp) (by constructor <;> rfl)
  | connected hc => exact .connected true hc
  | connectFailed hc => exact .connectFailed false hc
  | readOk l₁ l₂ bs hr _ hl => exact .took l₁ l₂ bs hr hl
  | readFail l₁ l₂ bs hr hl => exact .readFail l₁ l₂ bs hr (hl.imp_right And.right)
  | @put op l₁ l₂ k hw =>
      apply ReadStep.other (by simp [Effect.onReader])
      constructor <;> first | rfl | skip
      cases hk : op.kind.isChain <;> simp [answering, answerWrites, hw, hk]
  | @writeOk op l₁ l₂ hw =>
      cases hk : op.kind.isChain with
      | true =>
          have hr : OffReader c ({ c with writes := l₁ ++ l₂ }, [.wrote op.kind]) := by
            refine ⟨by simp [Effect.onReader, hk], ?_⟩
            constructor <;> first | rfl | simp [answering, answerWrites, hw, hk]
          exact .of_offReader (hr.andThen (offReader_onWrite hk))
      | false =>
          rw [eq_validation hk]
          exact .wrote l₁.length (l₁ ++ l₂) (by simp [answering, answerWrites, hw, hk]; omega)
  | @writeFail op l₁ l₂ hw =>
      cases hk : op.kind.isChain with
      | true =>
          apply ReadStep.other (by simp [Effect.onReader, hk])
          constructor <;> first | rfl | simp [answering, answerWrites, close, hw, hk]
      | false =>
          rw [eq_validation hk]
          exact .writeFail l₁.length (l₁ ++ l₂) (by simp [answering, answerWrites, hw, hk]; omega)

end Connection

end AsioNetworking
