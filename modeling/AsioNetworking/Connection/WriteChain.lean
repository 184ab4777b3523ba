import AsioNetworking.Connection.History
import AsioNetworking.Connection.Step

/-!
# The message chain

`Send` tasks append to `m_qMessagesOut`; the task that finds the queue empty starts a chain of
header and body writes that takes one message after the other off the queue. `ChainStep` says once
what a step of a connection can do to the chain; the invariant `ChainInv` is derived from it.
-/

namespace AsioNetworking

open List

variable {T : Type}

namespace Connection

/-- The outstanding writes of the message chain. -/
def chainWrites (c : Connection T) : List WriteOp := c.writes.filter (·.kind.isChain)

/-- The outstanding writes of the handshake. -/
def answerWrites (c : Connection T) : List WriteOp := c.writes.filter (!·.kind.isChain)

/-- The messages of the `Send` tasks that have not run yet. -/
def pendingSends (c : Connection T) : List (Message T) :=
  c.posted.filterMap fun | .send msg => some msg | .close => none

/-! ## Steps that leave the chain alone -/

/-- The parts of the state that the message chain reads and writes. -/
structure SameChain (c c' : Connection T) : Prop where
  queue : c'.qMessagesOut = c.qMessagesOut
  chain : c'.chainWrites = c.chainWrites
  pending : c'.pendingSends = c.pendingSends

def OffChain (c : Connection T) (r : Result T) : Prop :=
  (∀ x ∈ r.2, x.onChain = false) ∧ SameChain c r.1

theorem SameChain.rfl {c : Connection T} : SameChain c c := ⟨Eq.refl _, Eq.refl _, Eq.refl _⟩

theorem OffChain.of_same {c c₁ : Connection T} {r : Result T} (hr : OffChain c₁ r)
    (hs : SameChain c c₁) : OffChain c r :=
  ⟨hr.1, hr.2.queue.trans hs.queue, hr.2.chain.trans hs.chain, hr.2.pending.trans hs.pending⟩

theorem OffChain.andThen {c : Connection T} {r : Result T} {f : Connection T → Result T}
    (hr : OffChain c r) (hf : ∀ c₁, OffChain c₁ (f c₁)) : OffChain c (r.andThen f) := by
  obtain ⟨ho, hs⟩ := hr
  obtain ⟨ho', hs'⟩ := (hf r.1).of_same hs
  refine ⟨fun x hx => ?_, hs'⟩
  rcases mem_append.mp hx with hx | hx
  · exact ho x hx
  · exact ho' x hx

theorem offChain_startRead (kind : OpKind) (size : Nat) (c : Connection T) :
    OffChain c (c.startRead kind size) :=
  ⟨by simp [Effect.onChain], rfl, rfl, rfl⟩

theorem offChain_writeValidation (c : Connection T) : OffChain c c.writeValidation :=
  ⟨by simp [Effect.onChain], rfl, by simp [chainWrites], rfl⟩

variable [IdType T]

theorem offChain_addToIncomingMessageQueue (c : Connection T) :
    OffChain c c.addToIncomingMessageQueue :=
  OffChain.andThen ⟨by simp [Effect.onChain], .rfl⟩ fun _ => offChain_startRead _ _ _

theorem offChain_onReadHeader (bs : List UInt8) (c : Connection T) :
    OffChain c (c.onReadHeader bs) := by
  unfold onReadHeader
  simp only
  split
  · exact (offChain_startRead _ _ _).of_same ⟨rfl, rfl, rfl⟩
  · exact (offChain_addToIncomingMessageQueue _).of_same ⟨rfl, rfl, rfl⟩

theorem offChain_onReadValidation (bs : List UInt8) (c : Connection T) :
    OffChain c (c.onReadValidation bs) := by
  unfold onReadValidation
  simp only
  split
  · exact (offChain_writeValidation _).of_same ⟨rfl, rfl, rfl⟩
  · split
    · exact OffChain.andThen ⟨by simp [Effect.onChain], rfl, rfl, rfl⟩
        fun _ => offChain_startRead _ _ _
    · exact ⟨by simp [Effect.onChain], rfl, rfl, rfl⟩

theorem offChain_onRead (kind : OpKind) (bs : List UInt8) (c : Connection T) :
    OffChain c (c.onRead kind bs) := by
  cases kind with
  | validation => exact offChain_onReadValidation bs c
  | header => exact offChain_onReadHeader bs c
  | body => exact (offChain_addToIncomingMessageQueue _).of_same ⟨rfl, rfl, rfl⟩

theorem offChain_onWriteValidation (c : Connection T) : OffChain c c.onWriteValidation := by
  unfold onWriteValidation
  split
  · exact offChain_startRead _ _ _
  · exact ⟨by simp, .rfl⟩

/-! ## What a step can do to the chain -/

inductive ChainStep (c c' : Connection T) : Event T → List (Effect T) → Prop where
  | other {e o} : (∀ x ∈ o, x.onChain = false) → SameChain c c' → ChainStep c c' e o
  | send (msg) : c'.qMessagesOut = c.qMessagesOut → c'.chainWrites = c.chainWrites →
      c'.pendingSends = c.pendingSends ++ [msg] → ChainStep c c' (.send msg) [.send msg]
  | queue {msg tasks} : c.posted = .send msg :: tasks →
      c.pendingSends = msg :: c'.pendingSends → c.qMessagesOut ≠ [] →
      c'.qMessagesOut = c.qMessagesOut ++ [msg] → c'.chainWrites = c.chainWrites →
      ChainStep c c' .runTask [.run msg]
  | wake (msg live) {tasks} : c.posted = .send msg :: tasks →
      c.pendingSends = msg :: c'.pendingSends → c.qMessagesOut = [] → c'.qMessagesOut = [msg] →
      c'.chainWrites = c.chainWrites ++ [⟨.header, msg.header.toBytes, live⟩] →
      ChainStep c c' .runTask [.run msg, .startWrite .header msg.header.toBytes]
  | put {e} {op : WriteOp} (l₁ l₂) {k} : op.kind.isChain = true → c.chainWrites = l₁ ++ op :: l₂ →
      c'.chainWrites = l₁ ++ { op with rest := op.rest.drop k } :: l₂ →
      c'.qMessagesOut = c.qMessagesOut → c'.pendingSends = c.pendingSends →
      ChainStep c c' e [.put op.kind (op.rest.take k)]
  | wrote {e} {op : WriteOp} (l₁ l₂) {c₁ : Connection T} : op.kind.isChain = true →
      c.chainWrites = l₁ ++ op :: l₂ → op.rest = [] → c₁.chainWrites = l₁ ++ l₂ →
      c₁.qMessagesOut = c.qMessagesOut → c₁.pendingSends = c.pendingSends →
      c' = (onWrite op.kind c₁).1 → ChainStep c c' e (.wrote op.kind :: (onWrite op.kind c₁).2)
  | writeFail {e} {op : WriteOp} (l₁ l₂) : op.kind.isChain = true → c.chainWrites = l₁ ++ op :: l₂ →
      c'.chainWrites = l₁ ++ l₂ → c'.qMessagesOut = c.qMessagesOut →
      c'.pendingSends = c.pendingSends → ChainStep c c' e [.writeFail op.kind]

theorem ChainStep.of_offChain {c : Connection T} {e} {r : Result T} (h : OffChain c r) :
    ChainStep c r.1 e r.2 := .other h.1 h.2

theorem chainStep_runTask {c : Connection T} {task : Task T} {tasks} (hp : c.posted = task :: tasks) :
    ChainStep c (runTask task { c with posted := tasks }).1 .runTask
      (runTask task { c with posted := tasks }).2 := by
  cases task with
  | close =>
      refine .other (by simp [runTask]) ⟨rfl, rfl, ?_⟩
      simp only [pendingSends, hp, runTask, close, filterMap_cons]
  | send msg =>
      cases hq : c.qMessagesOut with
      | nil =>
          refine .wake msg (c.socketOpen && c.socketConnected) hp ?_ hq ?_ ?_
          · simp [pendingSends, hp, runTask, sendTask, writeHeader, Result.andThen]
          · simp [runTask, sendTask, writeHeader, Result.andThen]
          · simp [runTask, sendTask, writeHeader, Result.andThen, chainWrites, OpKind.isChain]
      | cons m q =>
          have he : runTask (.send msg) { c with posted := tasks } =
              ({ c with posted := tasks, qMessagesOut := c.qMessagesOut ++ [msg] }, [.run msg]) := by
            simp [runTask, sendTask, hq]
          rw [← hq, he]
          exact .queue hp (by simp [pendingSends, hp]) (by simp [hq]) rfl rfl

omit [IdType T] in
theorem eq_validation {kind : OpKind} (hk : kind.isChain = false) : kind = .validation := by
  cases kind with
  | validation => rfl
  | header => cases hk
  | body => cases hk

theorem next_chainStep {c c' : Connection T} {e o} (hn : c.next e = some (c', o)) :
    ChainStep c c' e o := by
  cases next_step hn with
  | send msg => exact .send msg rfl rfl (by simp [pendingSends])
  | disconnect => exact .other (by simp) ⟨rfl, rfl, by simp [pendingSends]⟩
  | disconnectClosed => exact .other (by simp) .rfl
  | runTask task tasks hp => exact chainStep_runTask hp
  | established => exact .other (by simp) ⟨rfl, rfl, rfl⟩
  | connected => exact .other (by simp [Effect.onChain]) ⟨rfl, rfl, rfl⟩
  | connectFailed => exact .other (by simp) ⟨rfl, rfl, rfl⟩
  | @readOk op l₁ l₂ bs =>
      have hr : OffChain c ({ c with reads := l₁ ++ l₂ }, [.took op.kind bs]) :=
        ⟨by simp [Effect.onChain], rfl, rfl, rfl⟩
      exact .of_offChain (hr.andThen (offChain_onRead op.kind bs))
  | readFail => exact .other (by simp [Effect.onChain]) ⟨rfl, rfl, rfl⟩
  | @put op l₁ l₂ k hw =>
      cases hk : op.kind.isChain with
      | true =>
          exact .put (l₁.filter (·.kind.isChain)) (l₂.filter (·.kind.isChain)) hk
            (by simp [chainWrites, hw, hk]) (by simp [chainWrites, hk]) rfl rfl
      | false => exact .other (by simp [Effect.onChain, hk]) ⟨rfl, by simp [chainWrites, hw, hk], rfl⟩
  | @writeOk op l₁ l₂ hw _ hrest =>
      cases hk : op.kind.isChain with
      | true =>
          exact .wrote (l₁.filter (·.kind.isChain)) (l₂.filter (·.kind.isChain)) hk
            (by simp [chainWrites, hw, hk]) hrest (by simp [chainWrites]) rfl rfl rfl
      | false =>
          have hr : OffChain c ({ c with writes := l₁ ++ l₂ }, [.wrote op.kind]) :=
            ⟨by simp [Effect.onChain, hk], rfl, by simp [chainWrites, hw, hk], rfl⟩
          rw [eq_validation hk] at hr ⊢
          exact .of_offChain (hr.andThen offChain_onWriteValidation)
  | @writeFail op l₁ l₂ hw =>
      cases hk : op.kind.isChain with
      | true =>
          exact .writeFail (l₁.filter (·.kind.isChain)) (l₂.filter (·.kind.isChain)) hk
            (by simp [chainWrites, hw, hk]) (by simp [chainWrites, close]) rfl rfl
      | false =>
          exact .other (by simp [Effect.onChain, hk]) ⟨rfl, by simp [chainWrites, close, hw, hk], rfl⟩

/-! ## The invariant of the chain -/

/-- The chain between two steps: the queue, the outstanding writes of the chain, whether one has
failed, the bytes of the front message on the wire, and those given to `async_write`. -/
inductive Chain : List (Message T) → List WriteOp → Bool → List UInt8 → List UInt8 → Prop where
  | idle : Chain [] [] false [] []
  | header (m q p rest live) : p ++ rest = m.header.toBytes →
      Chain (m :: q) [⟨.header, rest, live⟩] false p m.header.toBytes
  | body (m q p rest live) : p ++ rest = m.body →
      Chain (m :: q) [⟨.body, rest, live⟩] false (m.header.toBytes ++ p) m.toBytes
  | stuck (m q p s) : p <+: s → s <+: m.toBytes → Chain (m :: q) [] true p s

/-- The bytes of the messages, one after the other. -/
def stream (ms : List (Message T)) : List UInt8 := ms.flatMap Message.toBytes

@[simp] theorem stream_append (ms ns : List (Message T)) :
    stream (ms ++ ns) = stream ms ++ stream ns := List.flatMap_append

@[simp] theorem stream_cons (m : Message T) (ms : List (Message T)) :
    stream (m :: ms) = m.toBytes ++ stream ms := rfl

@[simp] theorem stream_nil : stream ([] : List (Message T)) = [] := rfl

/-- A chain write fails and the chain starts no further write. -/
def Quiet (past : List (Effect T)) (x : Effect T) : Prop :=
  x.startsChain = true → chainFailed past = false

structure ChainInv (c : Connection T) (h : List (Effect T)) : Prop where
  fifo : sends h = runs h ++ c.pendingSends
  queue : runs h = pops h ++ c.qMessagesOut
  noEmptyQueue : Effect.emptyQueue ∉ h
  quiet : Past Quiet h
  chain : ∃ p s, Chain c.qMessagesOut c.chainWrites (chainFailed h) p s ∧
    chainBytes h = stream (pops h) ++ p ∧ chainStarted h = stream (pops h) ++ s

omit [IdType T] in
theorem offChain_singleton {x : Effect T} (hx : x.onChain = false) :
    sends [x] = [] ∧ runs [x] = [] ∧ pops [x] = [] ∧ chainBytes [x] = [] ∧
      chainStarted [x] = [] ∧ chainFailed [x] = false ∧ x ≠ .emptyQueue ∧ x.startsChain = false := by
  cases x <;> simp_all [Effect.onChain, Effect.startsChain]

omit [IdType T] in
theorem offChain_projections {o : List (Effect T)} (ho : ∀ x ∈ o, x.onChain = false) :
    sends o = [] ∧ runs o = [] ∧ pops o = [] ∧ chainBytes o = [] ∧ chainStarted o = [] ∧
      chainFailed o = false ∧ Effect.emptyQueue ∉ o ∧ ∀ x ∈ o, x.startsChain = false := by
  induction o with
  | nil => simp
  | cons x o ih =>
      obtain ⟨h1, h2, h3, h4, h5, h6, h7, h8⟩ := ih fun y hy => ho y (mem_cons_of_mem _ hy)
      obtain ⟨x1, x2, x3, x4, x5, x6, x7, x8⟩ := offChain_singleton (ho x mem_cons_self)
      rw [← singleton_append, sends_append, runs_append, pops_append, chainBytes_append,
        chainStarted_append, chainFailed_append, h1, h2, h3, h4, h5, h6, x1, x2, x3, x4, x5, x6]
      refine ⟨rfl, rfl, rfl, rfl, rfl, rfl, ?_, ?_⟩
      · simp [h7, x7.symm]
      · simpa [x8] using h8

/-! ### Steps of the chain -/

theorem Chain.append {q w f p s} (hc : Chain (T := T) q w f p s) (hq : q ≠ []) (msg : Message T) :
    Chain (q ++ [msg]) w f p s := by
  cases hc with
  | idle => exact absurd rfl hq
  | header m q p rest live hp => exact .header m (q ++ [msg]) p rest live hp
  | body m q p rest live hp => exact .body m (q ++ [msg]) p rest live hp
  | stuck m q p s hp hs => exact .stuck m (q ++ [msg]) p s hp hs

/-- An outstanding write of the chain is the only one, and it writes the front message. -/
theorem Chain.inv_op {q l₁ op l₂ f p s} (hc : Chain (T := T) q (l₁ ++ op :: l₂) f p s) :
    l₁ = [] ∧ l₂ = [] ∧ f = false ∧ ∃ m q', q = m :: q' ∧
      ((op.kind = .header ∧ p ++ op.rest = m.header.toBytes ∧ s = m.header.toBytes) ∨
        (op.kind = .body ∧ ∃ p', p = m.header.toBytes ++ p' ∧ p' ++ op.rest = m.body ∧
          s = m.toBytes)) := by
  generalize hw : l₁ ++ op :: l₂ = w at hc
  have hone : ∀ x : WriteOp, l₁ ++ op :: l₂ = [x] → l₁ = [] ∧ op = x ∧ l₂ = [] := by
    intro x hx
    rcases append_eq_singleton_iff.mp hx with ⟨h₁, h₂⟩ | ⟨_, h₂⟩
    · exact ⟨h₁, by simpa using h₂⟩
    · cases h₂
  cases hc with
  | idle => simp at hw
  | header m q p rest live hp =>
      obtain ⟨rfl, rfl, rfl⟩ := hone _ hw
      exact ⟨rfl, rfl, rfl, m, q, rfl, Or.inl ⟨rfl, hp, rfl⟩⟩
  | body m q p rest live hp =>
      obtain ⟨rfl, rfl, rfl⟩ := hone _ hw
      exact ⟨rfl, rfl, rfl, m, q, rfl, Or.inr ⟨rfl, p, rfl, hp, rfl⟩⟩
  | stuck => simp at hw

/-- `pop_front` with no chain write outstanding: the queue is empty, or the next header starts. -/
theorem popFront_eq {c : Connection T} {m q} (hq : c.qMessagesOut = m :: q) :
    (q = [] ∧ c.popFront = ({ c with qMessagesOut := [] }, [.pop m])) ∨
      ∃ m' q', q = m' :: q' ∧ c.popFront =
        (({ c with qMessagesOut := q }.startWrite .header m'.header.toBytes).1,
          [.pop m, .startWrite .header m'.header.toBytes]) := by
  cases q with
  | nil => exact Or.inl ⟨rfl, by simp [popFront, hq]⟩
  | cons m' q' =>
      exact Or.inr ⟨m', q', rfl, by
        simp [popFront, hq, Result.andThen, writeHeader]⟩

/-- After the whole front message is on the wire, `popFront` leaves a chain that is idle or at the
start of the next header. -/
theorem Chain.of_popFront {c : Connection T} {m q} (hq : c.qMessagesOut = m :: q)
    (hw : c.chainWrites = []) :
    ∃ s, Chain c.popFront.1.qMessagesOut c.popFront.1.chainWrites false [] s ∧
      chainStarted c.popFront.2 = s ∧ pops c.popFront.2 = [m] ∧
      c.popFront.1.pendingSends = c.pendingSends ∧ m :: c.popFront.1.qMessagesOut = m :: q ∧
      runs c.popFront.2 = [] ∧ sends c.popFront.2 = [] ∧ chainBytes c.popFront.2 = [] ∧
      chainFailed c.popFront.2 = false ∧ Effect.emptyQueue ∉ c.popFront.2 := by
  rcases popFront_eq hq with ⟨rfl, he⟩ | ⟨m', q', rfl, he⟩
  · rw [he]
    refine ⟨[], ?_, ?_⟩
    · have hw' : Connection.chainWrites { c with qMessagesOut := [] } = [] := hw
      simp only [hw']; exact .idle
    · simp [pendingSends]
  · rw [he]
    refine ⟨m'.header.toBytes, ?_, ?_⟩
    · have hw' : (startWrite .header m'.header.toBytes
          { c with qMessagesOut := m' :: q' }).1.chainWrites =
          [⟨.header, m'.header.toBytes, c.socketOpen && c.socketConnected⟩] := by
        rw [chainWrites] at hw
        simp only [chainWrites, startWrite, filter_append, hw]; rfl
      simp only [hw']; exact .header m' q' [] _ _ rfl
    · simp [chainStarted, pops, pendingSends, runs, sends, chainBytes, chainFailed, OpKind.isChain]

omit [IdType T] in
theorem past_quiet_append {h o : List (Effect T)} (hq : Past Quiet h)
    (hf : chainFailed h = false) (ho : chainFailed o = false) : Past Quiet (h ++ o) := by
  refine past_append.mpr ⟨hq, ?_⟩
  rintro h₁ x h₂ rfl _
  simp only [chainFailed_append, Bool.or_eq_false_iff] at ho ⊢
  exact ⟨hf, ho.1⟩

theorem ChainInv.wrote {c c₁ : Connection T} {h : List (Effect T)} {op : WriteOp} {l₁ l₂}
    (hi : ChainInv c h) (hw : c.chainWrites = l₁ ++ op :: l₂) (hr : op.rest = [])
    (hw₁ : c₁.chainWrites = l₁ ++ l₂) (hq : c₁.qMessagesOut = c.qMessagesOut)
    (hp : c₁.pendingSends = c.pendingSends) :
    ChainInv (onWrite op.kind c₁).1 (h ++ .wrote op.kind :: (onWrite op.kind c₁).2) := by
  obtain ⟨hfifo, hqueue, hne, hquiet, p, s, hc, hb, hst⟩ := hi
  rw [hw] at hc
  obtain ⟨rfl, rfl, hf, m, q, hmq, hop⟩ := hc.inv_op
  rw [hmq] at hq hqueue
  rw [append_nil] at hw₁
  -- the whole front message is on the wire
  have pop (hpm : p = m.toBytes) (hsm : s = m.toBytes) :
      ChainInv c₁.popFront.1 (h ++ .wrote op.kind :: c₁.popFront.2) := by
    obtain ⟨s', hc', h1, h2, h3, h4, h5, h6, h7, h8, h9⟩ := Chain.of_popFront hq hw₁
    refine ⟨by simp [h5, h6, h3, hp, hfifo], by simp [h5, h2, hqueue, ← h4], by simp [hne, h9],
      past_quiet_append hquiet hf (by simp [h8]), [], s', ?_, ?_, ?_⟩
    · simpa [h8, hf] using hc'
    · simp [h7, h2, hb, hpm]
    · simp [h1, h2, hst, hsm]
  rcases hop with ⟨hk, hph, hsh⟩ | ⟨hk, p', rfl, hpb, hsb⟩
  · rw [hr, append_nil] at hph
    simp only [hk, onWrite, onWriteHeader, hq]
    split
    · have hw' : (startWrite .body m.body c₁).1.chainWrites =
          [⟨.body, m.body, c₁.socketOpen && c₁.socketConnected⟩] := by
        rw [chainWrites] at hw₁
        simp only [chainWrites, startWrite, filter_append, hw₁]; rfl
      have he : c₁.writeBody = startWrite .body m.body c₁ := by simp [writeBody, hq]
      rw [he]
      have hp' : (startWrite .body m.body c₁).1.pendingSends = c.pendingSends := hp
      refine ⟨by rw [hp']; simp [hfifo], by simp [hqueue, hq],
        by simp [hne], past_quiet_append hquiet hf (by simp),
        m.header.toBytes, m.toBytes, ?_, ?_, ?_⟩
      · have hq' : (startWrite .body m.body c₁).1.qMessagesOut = m :: q := hq
        rw [hq', hw', chainFailed_append, hf]
        simpa using
          Chain.body m q [] m.body (c₁.socketOpen && c₁.socketConnected) rfl
      · simp [hb, hph]
      · simp [hst, hsh, Message.toBytes]
    · rename_i hz
      have hnil : m.body = [] := by simpa using hz
      rw [hk] at pop
      exact pop (by simp [Message.toBytes, hnil, hph]) (by simp [Message.toBytes, hnil, hsh])
  · rw [hr, append_nil] at hpb
    rw [hk] at pop ⊢
    exact pop (by simp [Message.toBytes, hpb]) hsb

theorem ChainInv.step {c c' : Connection T} {h e o} (hi : ChainInv c h)
    (hs : ChainStep c c' e o) :
    ChainInv c' (h ++ o) := by
  cases hs with
  | wrote l₁ l₂ hk hw hr hw₁ hq hp hc' => rw [hc']; exact hi.wrote hw hr hw₁ hq hp
  | other ho hsame =>
      obtain ⟨hfifo, hqueue, hne, hquiet, p, s, hc, hb, hst⟩ := hi
      obtain ⟨h1, h2, h3, h4, h5, h6, h7, h8⟩ := offChain_projections ho
      obtain ⟨hq, hw, hp⟩ := hsame
      refine ⟨by simp [h1, h2, hfifo, hp], by simp [h2, h3, hqueue, hq], by simp [hne, h7], ?_,
        p, s, by simpa [h6, hq, hw] using hc, by simp [h3, h4, hb], by simp [h3, h5, hst]⟩
      refine past_append.mpr ⟨hquiet, Past.of_forall fun x hx p => ?_⟩
      simp [Quiet, h8 x hx]
  | send msg hq hw hp =>
      obtain ⟨hfifo, hqueue, hne, hquiet, p, s, hc, hb, hst⟩ := hi
      refine ⟨by simp [hp, hfifo], by simp [hqueue, hq], by simp [hne], ?_, p, s,
        by simpa [hq, hw] using hc, by simpa using hb, by simpa using hst⟩
      exact past_append.mpr ⟨hquiet, Past.of_forall (by simp [Quiet, Effect.startsChain])⟩
  | queue _ hp hne' hq hw =>
      obtain ⟨hfifo, hqueue, hne, hquiet, p, s, hc, hb, hst⟩ := hi
      refine ⟨by simp [hfifo, hp], by simp [hq, hqueue], by simp [hne], ?_, p, s,
        by simpa [hq, hw] using hc.append hne' _, by simpa using hb, by simpa using hst⟩
      exact past_append.mpr ⟨hquiet, Past.of_forall (by simp [Quiet, Effect.startsChain])⟩
  | wake msg live _ hp hq hq' hw =>
      obtain ⟨hfifo, hqueue, hne, hquiet, p, s, hc, hb, hst⟩ := hi
      rw [hq] at hc hqueue
      generalize hf : chainFailed h = f at hc
      generalize hw₀ : c.chainWrites = w at hc
      cases hc with
      | idle =>
          refine ⟨by simp [hfifo, hp], by simp [hq', hqueue], by simp [hne],
            past_quiet_append hquiet hf (by simp), [], msg.header.toBytes, ?_,
            by simpa using hb, by simp [hst]⟩
          rw [hq', hw, hw₀, chainFailed_append, hf]
          exact .header msg [] [] _ live rfl
  | put l₁ l₂ hk hw hw' hq hp =>
      obtain ⟨hfifo, hqueue, hne, hquiet, p, s, hc, hb, hst⟩ := hi
      rename_i op k
      rw [hw] at hc
      obtain ⟨rfl, rfl, hf, m, q, hmq, hop⟩ := hc.inv_op
      refine ⟨by simp [hfifo, hp], by simp [hqueue, hq], by simp [hne],
        past_quiet_append hquiet hf (by simp), p ++ op.rest.take k, s, ?_, by simp [hk, hb],
        by simpa using hst⟩
      rw [hq, hmq, hw', chainFailed_append, hf]
      rcases hop with ⟨hk, hph, rfl⟩ | ⟨hk, p', rfl, hpb, rfl⟩
      · rw [hk]
        exact .header m q _ _ _ (by rw [append_assoc, take_append_drop, hph])
      · rw [hk, append_assoc]
        exact .body m q _ _ _ (by rw [append_assoc, take_append_drop, hpb])
  | writeFail l₁ l₂ hk hw hw' hq hp =>
      obtain ⟨hfifo, hqueue, hne, hquiet, p, s, hc, hb, hst⟩ := hi
      rw [hw] at hc
      obtain ⟨rfl, rfl, hf, m, q, hmq, hop⟩ := hc.inv_op
      refine ⟨by simp [hfifo, hp], by simp [hqueue, hq], by simp [hne], ?_, p, s, ?_,
        by simpa using hb, by simpa using hst⟩
      · exact past_append.mpr ⟨hquiet, Past.of_forall (by simp [Quiet, Effect.startsChain])⟩
      · rw [hq, hmq, hw']
        simp only [chainFailed_append, hf, chainFailed, hk, append_nil, Bool.false_or, Bool.or_false]
        rcases hop with ⟨_, hph, rfl⟩ | ⟨_, p', rfl, hpb, rfl⟩
        · exact .stuck m q p _ ⟨_, hph⟩ (by rw [Message.toBytes]; exact prefix_append _ _)
        · refine .stuck m q _ _ ?_ (prefix_refl _)
          rw [Message.toBytes, prefix_append_right_inj]
          exact ⟨_, hpb⟩

end Connection

end AsioNetworking
