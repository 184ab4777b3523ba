import AsioNetworking.Connection.Wire

/-!
# The work of a connection

Every task that runs, every handler of a read or a write and every piece of bytes that goes out is
paid for by the messages that were sent: a connection does a bounded amount of work for them, in
whatever pieces the bytes go out and come in.
-/

namespace AsioNetworking

open List

variable {T : Type}

/-- A `Send` task ran, a read or a write was done, or bytes went out. -/
def Effect.isMove : Effect T → Bool
  | .run _ | .took _ _ | .wrote _ => true
  | .put _ bytes => !bytes.isEmpty
  | _ => false

def moved (h : List (Effect T)) : Nat := h.countP Effect.isMove

@[simp] theorem moved_nil : moved ([] : List (Effect T)) = 0 := rfl

@[simp] theorem moved_cons (x : Effect T) (h : List (Effect T)) :
    moved (x :: h) = moved h + if x.isMove then 1 else 0 := countP_cons

@[simp] theorem moved_append (h o : List (Effect T)) : moved (h ++ o) = moved h + moved o :=
  countP_append

namespace Connection

/-! ## What a handler starts -/

/-- What the handler run in `c` starts has bytes to write, and it does nothing else that counts. -/
structure Works (c : Connection T) (r : Result T) : Prop where
  writes : r.1.writes.length ≤ c.writes.length + (startedBytes r.2).length
  moved : moved r.2 ≤ (runs r.2).length

theorem works_startWrite (kind : OpKind) {bytes : List UInt8} (hb : 0 < bytes.length)
    (c : Connection T) : Works c (c.startWrite kind bytes) := by
  refine ⟨?_, le_of_eq rfl⟩
  simp only [startWrite_fst, startWrite_snd, length_append, length_singleton, startedBytes, append_nil]
  omega

theorem Works.of_eq {c c₁ : Connection T} {r : Result T} (hr : Works c₁ r)
    (hw : c₁.writes = c.writes) : Works c r := ⟨hw ▸ hr.writes, hr.moved⟩

theorem Works.andThen {c c₁ : Connection T} {o : List (Effect T)} {f : Connection T → Result T}
    (hf : Works c₁ (f c₁)) (hw : c₁.writes = c.writes)
    (ho : AsioNetworking.moved o ≤ (runs o).length) :
    Works c (Result.andThen (c₁, o) f) := by
  obtain ⟨h1, h2⟩ := hf.of_eq hw
  refine ⟨?_, ?_⟩
  · simp only [Result.andThen_fst, Result.andThen_snd, startedBytes_append, length_append]
    omega
  · simp only [Result.andThen_snd, moved_append, runs_append, length_append]
    omega

theorem works_quiet {c : Connection T} {r : Result T} (hw : r.1.writes = c.writes)
    (hm : moved r.2 = 0) : Works c r := ⟨by rw [hw]; omega, by omega⟩

variable [IdType T]

theorem works_writeHeader (c : Connection T) : Works c c.writeHeader := by
  unfold writeHeader
  split
  · exact works_quiet rfl rfl
  · refine works_startWrite _ ?_ c
    rw [MessageHeader.length_toBytes]
    exact (frameFormat T).headerLen_pos

theorem works_popFront (c : Connection T) : Works c c.popFront := by
  unfold popFront
  split
  · exact works_quiet rfl rfl
  · rename_i msg rest _
    simp only
    split
    · exact works_quiet rfl rfl
    · exact (works_writeHeader { c with qMessagesOut := rest }).andThen rfl le_rfl

theorem works_onWrite (kind : OpKind) (c : Connection T) : Works c (onWrite kind c) := by
  cases kind with
  | validation =>
      simp only [onWrite, onWriteValidation]
      split <;> exact works_quiet rfl rfl
  | body => exact works_popFront c
  | header =>
      simp only [onWrite, onWriteHeader]
      split
      · exact works_quiet rfl rfl
      · rename_i msg q hq
        split
        · rename_i hb
          simp only [writeBody, hq]
          exact works_startWrite _ hb c
        · exact works_popFront c

theorem works_onRead (kind : OpKind) (bs : List UInt8) (c : Connection T) :
    Works c (onRead kind bs c) := by
  cases kind with
  | validation =>
      simp only [onRead, onReadValidation]
      split
      · have hpos : 0 < (uint64Bytes (scramble (uint64OfBytes bs))).length := by
          rw [uint64Bytes, LittleEndian.length_encode]
          decide
        exact (works_startWrite .validation hpos _).of_eq rfl
      · split <;> exact works_quiet rfl rfl
  | header =>
      simp only [onRead, onReadHeader]
      split <;> exact works_quiet rfl rfl
  | body => exact works_quiet rfl rfl

theorem works_runTask (task : Task T) (c : Connection T) : Works c (runTask task c) := by
  cases task with
  | close => exact works_quiet rfl rfl
  | send msg =>
      simp only [runTask, sendTask]
      split
      · exact Works.andThen (works_writeHeader _) rfl le_rfl
      · exact ⟨by simp, le_rfl⟩

/-! ## The account -/

variable {c c' : Connection T} {h o : List (Effect T)} {e : Event T}

structure WorkInv (c : Connection T) (h : List (Effect T)) : Prop where
  read : ReadInv c h
  chain : ChainInv c h
  moved : moved h + c.writes.length ≤
    (runs h).length + (putBytes h).length + (tookBytes h).length + (startedBytes h).length
  rest : (putBytes h).length + (c.writes.flatMap (·.rest)).length ≤ (startedBytes h).length
  server : c.nOwnerType = .server → (answers h).flatten.length ≤ 8

theorem Awaits.size_pos {op : ReadOp} (ha : Awaits c h op) : 0 < op.size := by
  cases ha with
  | validation => exact Nat.succ_pos 7
  | header => exact (frameFormat T).headerLen_pos
  | body _ _ _ _ _ _ _ h8 _ =>
      have h8 := UInt32.lt_iff_toNat_lt.mp h8
      simp only [UInt32.reduceToNat] at h8
      simp only
      omega

/-- What a step does is paid for by a task, by the bytes it moves, or by a write that it ends. -/
theorem Step.account (hs : Step c e c' o) (hi : ReadInv c h) : AsioNetworking.moved o + c'.writes.length ≤
    c.writes.length + (runs o).length + (putBytes o).length + (tookBytes o).length +
      (startedBytes o).length := by
  cases hs with
  | runTask task tasks _ =>
      obtain ⟨h1, h2⟩ := works_runTask task { c with posted := tasks }
      simp only at h1
      omega
  | @readOk op l₁ l₂ bs hr _ hl =>
      obtain ⟨h1, h2⟩ := works_onRead op.kind bs { c with reads := l₁ ++ l₂ }
      obtain ⟨-, -, -, -, haw⟩ := hi.reading.awaits hr
      have hpos := haw.size_pos
      simp only [moved_cons, Effect.isMove, if_true, runs, putBytes, tookBytes,
        startedBytes, length_append] at h1 h2 ⊢
      omega
  | @put op l₁ l₂ k hw _ _ _ =>
      have hm : AsioNetworking.moved [Effect.put (T := T) op.kind (op.rest.take k)] ≤
          (op.rest.take k).length := by
        cases htake : op.rest.take k <;> simp [Effect.isMove]
      simp only [hw, length_append, length_cons, putBytes, append_nil]
      omega
  | @writeOk op l₁ l₂ hw _ _ =>
      obtain ⟨h1, h2⟩ := works_onWrite op.kind { c with writes := l₁ ++ l₂ }
      simp only [moved_cons, Effect.isMove, if_true, runs, putBytes, tookBytes,
        startedBytes, length_append, hw, length_cons] at h1 h2 ⊢
      omega
  | @writeFail op l₁ l₂ hw =>
      simp [Effect.isMove, close, hw]
  | _ => simp [Effect.isMove, close]

theorem WriteStep.rest (hs : WriteStep c c' e o)
    (hr : (putBytes h).length + (c.writes.flatMap (·.rest)).length ≤ (startedBytes h).length) :
    (putBytes (h ++ o)).length + (c'.writes.flatMap (·.rest)).length ≤
      (startedBytes (h ++ o)).length := by
  have started {c₁ : Connection T} {ws} (hst : Starts c₁ (c', o) ws)
      (hw : (c₁.writes.flatMap (·.rest)).length ≤ (c.writes.flatMap (·.rest)).length) :
      (putBytes (h ++ o)).length + (c'.writes.flatMap (·.rest)).length ≤
        (startedBytes (h ++ o)).length := by
    have hwr := hst.writes
    have hs := hst.started
    have hp := hst.put
    simp only at hwr hs hp
    rw [putBytes_append, startedBytes_append, hp, hs, hwr, flatMap_append, append_nil, length_append,
      length_append]
    omega
  cases hs with
  | quiet _ _ hst => exact started hst le_rfl
  | wake _ _ hst => exact started hst le_rfl
  | solve _ _ _ hst => exact started hst le_rfl
  | wrote l₁ l₂ ws hw _ hz _ _ hst => exact started hst (by simp [hw, hz])
  | put l₁ l₂ k hw _ _ _ hw' =>
      simp only [hw, hw', flatMap_append, flatMap_cons, length_append, putBytes_append,
        startedBytes_append, putBytes, startedBytes, append_nil, length_take, length_drop] at hr ⊢
      omega
  | writeFail l₁ l₂ hw hw' _ =>
      simp only [hw, hw', flatMap_append, flatMap_cons, length_append, putBytes_append,
        startedBytes_append, putBytes, startedBytes, append_nil] at hr ⊢
      omega

theorem WriteStep.answers_eq_nil (hs : WriteStep c c' e o) (ho : c.nOwnerType = .server) :
    answers o = [] := by
  cases hs with
  | quiet _ _ hst => exact hst.answers
  | wake _ _ hst => exact hst.answers
  | solve j bs hs _ =>
      simp only [solves, ho] at hs
      split at hs <;> simp at hs
  | put => rfl
  | wrote _ _ ws _ _ _ _ hch hst =>
      rw [hst.answers, filter_eq_nil_iff.mpr fun op hop => by simp [hch op hop]]
      rfl
  | writeFail => rfl

theorem WorkInv.step (hi : WorkInv c h) (hn : c.next e = some (c', o)) : WorkInv c' (h ++ o) := by
  have hws := next_writeStep hn
  have hrs := next_readStep hn
  refine ⟨hi.read.step hrs, hi.chain.step (next_chainStep hn), ?_, hws.rest hi.rest, fun ho => ?_⟩
  · have hstep := (next_step hn).account hi.read
    have hm := hi.moved
    simp only [moved_append, runs_append, putBytes_append, tookBytes_append, startedBytes_append,
      length_append]
    omega
  · have ho := hrs.owner.symm.trans ho
    rw [answers_append, hws.answers_eq_nil ho, append_nil]
    exact hi.server ho

omit [IdType T] in
@[simp] theorem moved_map_send (msgs : List (Message T)) :
    AsioNetworking.moved (msgs.map .send) = 0 := by
  simp [AsioNetworking.moved, Effect.isMove]

theorem Start.workInv (hs : Start c h) : WorkInv c h := by
  refine ⟨hs.readInv, hs.chainInv, ?_, ?_, ?_⟩
  all_goals
    cases hs with
    | client => simp [connected, connectToServer, construct]
    | server nonce msgs approve uid =>
        obtain ⟨h1, h2, h3, h4⟩ := offWire_projections (o := msgs.map (Effect.send (T := T)))
          (by simp [Effect.onWire])
        cases approve with
        | true =>
            simp [accepted_approved, construct, h1, h3, h4, Effect.isMove,
              uint64Bytes, LittleEndian.length_encode]
        | false => simp [accepted_denied, construct, h1, h3, h4]

omit [IdType T] in
theorem length_startedBytes (h : List (Effect T)) :
    (startedBytes h).length = (answers h).flatten.length + (chainStarted h).length := by
  induction h with
  | nil => rfl
  | cons x h ih =>
      cases x with
      | startWrite kind bytes => cases kind <;> simp [ih] <;> omega
      | _ => simpa using ih

theorem WorkInv.length_answers (hi : WorkInv c h) : (answers h).flatten.length ≤ 8 := by
  rcases c.role with ho | ho
  · rcases hi.read.reading.unread_or_heard with hu | ⟨hs, fs, rest, hu⟩
    · simp [(hu.answers ho).1]
    · simp [hu.answers ho, uint64Bytes, LittleEndian.length_encode]
  · exact hi.server ho

theorem WorkInv.length_startedBytes (hi : WorkInv c h) :
    (startedBytes h).length ≤ 8 + (stream (sends h)).length := by
  have hch := hi.chain.chainStarted_sends.length_le
  have ha := hi.length_answers
  rw [Connection.length_startedBytes]
  omega

theorem Start.run_workInv {c₀ : Connection T} {h₀ G} (hs : Start c₀ h₀)
    (hr : (machine T).Run G c₀ h₀ c h) : WorkInv c h :=
  hr.invariant hs.workInv fun _ _ _ _ _ hi _ hn => hi.step hn

/-- The work is bounded by the messages sent and the bytes that came. -/
theorem WorkInv.work_le (hi : WorkInv c h) : AsioNetworking.moved h ≤
    (sends h).length + 2 * (8 + (stream (sends h)).length) + (tookBytes h).length := by
  have hm := hi.moved
  have hr := hi.rest
  have hst := hi.length_startedBytes
  have hruns : (runs h).length ≤ (sends h).length := by
    rw [hi.chain.fifo, length_append]
    omega
  omega

theorem WorkInv.length_putBytes (hi : WorkInv c h) :
    (putBytes h).length ≤ 8 + (stream (sends h)).length := by
  have hr := hi.rest
  have hst := hi.length_startedBytes
  omega

end Connection

end AsioNetworking
