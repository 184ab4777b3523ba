import AsioNetworking.Lib.Atomic
import AsioNetworking.TsQueue.Step

/-!
# The queue is an atomic deque

Each method does its work on the deque while it holds `m_oMuxQueue`, and `wait` returns after it has
seen, under that mutex, that the deque is not empty. To the threads that call them the methods of a
`tsqueue` are single steps of a deque.
-/

namespace AsioNetworking

variable {α ι : Type}

/-! ## Calls and returns -/

/-- What a method returns: nothing, an item when there is one, or the answers of `empty` and `count`. -/
inductive QueueRet (α : Type) where
  | unit
  | item (item : Option α)
  | isEmpty (isEmpty : Bool)
  | count (n : Nat)
  deriving DecidableEq

/-- The operand of the `return` statement, which is evaluated under the lock. -/
def QueueCall.returned (items : List α) : QueueCall α → QueueRet α
  | .front | .popFront => .item items.head?
  | .back | .popBack => .item items.getLast?
  | .push _ | .clear | .wait => .unit
  | .empty => .isEmpty items.isEmpty
  | .count => .count items.length

/-- A queue, and for each thread the value that its call is going to return. -/
structure TsQueueCalls (α ι : Type) where
  queue : TsQueue α ι
  value : ι → QueueRet α

/-- A sequential deque, where `wait` has to wait as long as the deque is empty. -/
def deque (α : Type) : SeqObject (List α) (QueueCall α) (QueueRet α) where
  apply items
    | .front => some (items, .item items.head?)
    | .back => some (items, .item items.getLast?)
    | .push push => some (push.apply items, .unit)
    | .empty => some (items, .isEmpty items.isEmpty)
    | .count => some (items, .count items.length)
    | .clear => some ([], .unit)
    | .popFront => some (items.tail, .item items.head?)
    | .popBack => some (items.dropLast, .item items.getLast?)
    | .wait => if items.isEmpty then none else some (items, .unit)

namespace TsQueueCalls

open TsQueue

variable [DecidableEq ι]

def init (items : List α) : TsQueueCalls α ι := ⟨.init items, fun _ => .unit⟩

/-- The values of the threads after a step. -/
def setValue (s : TsQueueCalls α ι) : QueueEvent α ι → ι → QueueRet α
  | .step i =>
      match s.queue.pc i with
      | .work call => Function.update s.value i (call.returned s.queue.deqQueue)
      | _ => s.value
  | _ => s.value

/-- The calls and the returns of a step. A call returns when it unlocks `m_oMuxQueue`, `wait` when
the deque was not empty. -/
def actions (s : TsQueueCalls α ι) :
    QueueEvent α ι → List (Atomic.Action (QueueCall α) (QueueRet α) ι)
  | .call i call => [.call i call]
  | .step i =>
      match s.queue.pc i with
      | .unlockQueue call isEmpty =>
          match afterQueue call isEmpty with
          | .idle => [.ret i call (s.value i)]
          | _ => []
      | _ => []
  | _ => []

def next (s : TsQueueCalls α ι) (e : QueueEvent α ι) :
    Option (TsQueueCalls α ι × List (Atomic.Action (QueueCall α) (QueueRet α) ι)) :=
  (s.queue.next e).map fun r => (⟨r.1, s.setValue e⟩, s.actions e)

def machine (α ι : Type) [DecidableEq ι] : Mealy (TsQueueCalls α ι) (QueueEvent α ι)
    (Atomic.Action (QueueCall α) (QueueRet α) ι) := ⟨next⟩

/-! ## The atomic deque behind it -/

/-- How far a call has got: it is done after its work, but for a `wait` that found the deque
empty. -/
def phase (pc : ThreadPc α) (v : QueueRet α) : Atomic.Phase (QueueCall α) (QueueRet α) :=
  match pc with
  | .idle => .idle
  | .lockQueue call | .work call => .called call
  | .lockBlocking push | .notify push | .unlockBlocking push => .done (.push push) v
  | .unlockQueue call isEmpty =>
      match afterQueue call isEmpty with
      | .idle => .done call v
      | _ => .called call
  | .lockToWait | .wait | .blocked | .woken | .unlockAfterWait => .called .wait

def abs (s : TsQueueCalls α ι) : Atomic.State (List α) (QueueCall α) (QueueRet α) ι :=
  ⟨s.queue.deqQueue, fun i => phase (s.queue.pc i) (s.value i)⟩

variable {s s' : TsQueueCalls α ι} {i : ι}

/-- A step that changes the place of one thread only changes the phase of that thread. -/
theorem abs_update {pc : ι → ThreadPc α} {v : ι → QueueRet α} (p : ThreadPc α) (w : QueueRet α) :
    (fun j => phase (Function.update pc i p j) (Function.update v i w j)) =
      Function.update (fun j => phase (pc j) (v j)) i (phase p w) := by
  funext j
  by_cases hij : j = i
  · subst hij
    simp
  · simp [Function.update_of_ne hij]

theorem abs_keep {pc : ι → ThreadPc α} {v : ι → QueueRet α} (p : ThreadPc α) :
    (fun j => phase (Function.update pc i p j) (v j)) =
      Function.update (fun j => phase (pc j) (v j)) i (phase p (v i)) := by
  rw [← abs_update, Function.update_eq_self]

omit [DecidableEq ι] in
theorem afterQueue_cases (call : QueueCall α) (isEmpty : Bool) :
    afterQueue call isEmpty = .idle ∨ afterQueue call isEmpty = .lockToWait ∧ call = .wait := by
  cases call with
  | wait => cases isEmpty <;> simp [afterQueue]
  | _ => exact .inl rfl

/-- A step that does not change how far the call of the thread has got. -/
theorem abs_quiet {q : TsQueue α ι} {p : ThreadPc α} (hd : q.deqQueue = s.queue.deqQueue)
    (hpc : q.pc = Function.update s.queue.pc i p)
    (hp : phase p (s.value i) = phase (s.queue.pc i) (s.value i)) : abs ⟨q, s.value⟩ = abs s := by
  simp only [abs, hd, hpc, abs_keep, hp, Function.update_eq_self]

/-- The work of a call that is not a `wait` on an empty deque is the step of its operation. -/
theorem abs_work {call : QueueCall α} (hpc : s.queue.pc i = .work call)
    (hw : call = .wait → s.queue.deqQueue ≠ []) : ∃ e' o',
    Atomic.next (deque α) (abs s) e' = some (abs ⟨{ s.queue with
        deqQueue := (work i call s.queue.deqQueue).1 }.setPc i (work i call s.queue.deqQueue).2.1,
      Function.update s.value i (call.returned s.queue.deqQueue)⟩, o') ∧ Atomic.visible o' = [] := by
  have hphase : (abs s).phase i = .called call := by simp [abs, phase, hpc]
  refine ⟨.commit i, [.commit i call (call.returned s.queue.deqQueue)], ?_, rfl⟩
  have happly : (deque α).apply s.queue.deqQueue call =
      some ((work i call s.queue.deqQueue).1, call.returned s.queue.deqQueue) := by
    cases call with
    | wait => simp [deque, work, QueueCall.returned, hw rfl]
    | _ => rfl
  have hdone : phase (work i call s.queue.deqQueue).2.1 (call.returned s.queue.deqQueue) =
      .done call (call.returned s.queue.deqQueue) := by
    cases call with
    | wait => simp [work, phase, afterQueue, hw rfl]
    | _ => rfl
  simp only [Atomic.next, hphase]
  simp only [abs, happly, setPc, abs_update, hdone]

theorem abs_step {e o} (hi : LockInv s.queue) (hn : s.next e = some (s', o)) :
    (abs s' = abs s ∧ o = []) ∨ ∃ e' o',
      Atomic.next (deque α) (abs s) e' = some (abs s', o') ∧ Atomic.visible o' = o := by
  simp only [next, Option.map_eq_some_iff] at hn
  obtain ⟨⟨q, x⟩, hq, he⟩ := hn
  cases he
  cases next_queueStep hq with
  | call i call hpc =>
      refine .inr ⟨.call i call, [.call i call], ?_, rfl⟩
      have hphase : (abs s).phase i = .idle := by simp [abs, phase, hpc]
      simp only [Atomic.next, hphase]
      simp only [abs, setPc, setValue, abs_keep]
      rfl
  | lockQueue i call hpc hm =>
      refine .inl ⟨?_, by simp [actions, hpc]⟩
      simp only [setValue, hpc]
      exact abs_quiet rfl rfl (by rw [hpc]; rfl)
  | work i call hpc =>
      simp only [setValue, actions, hpc]
      by_cases hw : call = .wait → s.queue.deqQueue ≠ []
      · exact .inr (abs_work hpc hw)
      · simp only [ne_eq, Classical.not_imp, not_not] at hw
        obtain ⟨rfl, hd⟩ := hw
        have hsame : phase (work i .wait s.queue.deqQueue).2.1
            (QueueCall.wait.returned s.queue.deqQueue) = phase (s.queue.pc i) (s.value i) := by
          rw [hpc]
          simp [work, hd, phase, afterQueue]
        refine .inl ⟨?_, trivial⟩
        simp only [abs, setPc, abs_update, hsame, Function.update_eq_self]
        rfl
  | lockBlocking i push hpc hm =>
      refine .inl ⟨?_, by simp [actions, hpc]⟩
      simp only [setValue, hpc]
      exact abs_quiet rfl rfl (by rw [hpc]; rfl)
  | notify i push hpc hw => exact .inl ⟨abs_quiet rfl rfl (by rw [hpc]; rfl), rfl⟩
  | notifyOne i push j hpc hj =>
      have hpcj := (hi.waiters j).mp hj
      have hij : i ≠ j := by
        rintro rfl
        rw [hpc] at hpcj
        cases hpcj
      have hpci : (s.queue.wake j).pc i = .notify push := by
        rw [← hpc]
        exact Function.update_of_ne hij ..
      have hwake : abs ⟨s.queue.wake j, s.value⟩ = abs s :=
        abs_quiet rfl rfl (by rw [hpcj]; rfl)
      have hset : abs ⟨(s.queue.wake j).setPc i (.unlockBlocking push), s.value⟩ =
          abs ⟨s.queue.wake j, s.value⟩ :=
        abs_quiet (s := ⟨s.queue.wake j, s.value⟩) (i := i) rfl rfl (by rw [hpci]; rfl)
      exact .inl ⟨hset.trans hwake, rfl⟩
  | unlockBlocking i push hpc =>
      refine .inl ⟨?_, by simp [actions, hpc]⟩
      simp only [setValue, hpc]
      exact abs_quiet rfl rfl (by rw [hpc]; rfl)
  | unlockQueue i call isEmpty hpc =>
      simp only [setValue, actions, hpc]
      rcases afterQueue_cases call isEmpty with ha | ⟨ha, rfl⟩
      · refine .inr ⟨.ret i, [.ret i call (s.value i)], ?_, by rw [ha]; rfl⟩
        have hphase : (abs s).phase i = .done call (s.value i) := by simp [abs, phase, hpc, ha]
        simp only [Atomic.next, hphase]
        simp only [abs, setPc, abs_keep, ha]
        rfl
      · refine .inl ⟨?_, by rw [ha]⟩
        exact abs_quiet rfl rfl (by rw [hpc]; simp [phase, ha])
  | lockToWait i hpc hm =>
      refine .inl ⟨?_, by simp [actions, hpc]⟩
      simp only [setValue, hpc]
      exact abs_quiet rfl rfl (by rw [hpc]; rfl)
  | wait i hpc =>
      refine .inl ⟨?_, by simp [actions, hpc]⟩
      simp only [setValue, hpc]
      exact abs_quiet rfl rfl (by rw [hpc]; rfl)
  | spurious i hb =>
      have hpc := (hi.waiters i).mp hb
      exact .inl ⟨abs_quiet rfl rfl (by rw [hpc]; rfl), rfl⟩
  | woken i hpc hm =>
      refine .inl ⟨?_, by simp [actions, hpc]⟩
      simp only [setValue, hpc]
      exact abs_quiet rfl rfl (by rw [hpc]; rfl)
  | unlockAfterWait i hpc =>
      refine .inl ⟨?_, by simp [actions, hpc]⟩
      simp only [setValue, hpc]
      exact abs_quiet rfl rfl (by rw [hpc]; rfl)

/-! ## Linearizability -/

theorem run_lockInv {items : List α} {h} (hr : (machine α ι).Run Mealy.free (init items) [] s h) :
    LockInv s.queue := by
  refine hr.invariant (P := fun s _ => LockInv s.queue) (init_lockInv items)
    fun s _ e s' o hi _ hn => ?_
  simp only [machine, next, Option.map_eq_some_iff] at hn
  obtain ⟨⟨q, x⟩, hq, he⟩ := hn
  cases he
  exact hi.step (next_queueStep hq)

/-- The queue refines the atomic deque: what the threads see of it, they could see of an object
whose methods are single steps. -/
theorem refines_atomic {items : List α} {h}
    (hr : (machine α ι).Run Mealy.free (init items) [] s h) : ∃ h',
    (Atomic.machine (deque α) ι).Run Mealy.free (Atomic.start items) [] (abs s) h' ∧
      Atomic.visible h' = h := by
  refine hr.refine abs Atomic.visible Atomic.visible_append fun s h e s' o hr _ hn => ?_
  exact abs_step (run_lockInv hr) hn

/-- In every run, with any number of threads that call any methods at any time: the calls and
returns have a linearization that leads to the items in the deque. -/
theorem linearizable {items : List α} {h}
    (hr : (machine α ι).Run Mealy.free (init items) [] s h) :
    Atomic.Linearizable (deque α) items s.queue.deqQueue h := by
  obtain ⟨h', hr', rfl⟩ := refines_atomic hr
  exact Atomic.linearizable_of_run hr'

/-- `false` waits for an item and pops it, while `true` pushes two. -/
def overlapping : TsQueueCalls Nat Bool × List (Atomic.Action (QueueCall Nat) (QueueRet Nat) Bool) :=
  ((machine Nat Bool).exec Mealy.free (init []) []
    [.call false .wait, .step false, .call true (.push (.back 5)), .step false, .step false,
      .step true, .step false, .step true, .step false, .step true, .notify true (some false),
      .step true, .step true, .call true (.push (.front 6)), .step false, .step true, .step true,
      .step false, .step true, .notify true none, .step true, .step true, .step false, .step false,
      .step false, .call false .popFront, .step false, .step false,
      .step false]).get (by decide +kernel)

theorem linearizable_overlapping :
    Atomic.Linearizable (deque Nat) [] overlapping.1.queue.deqQueue overlapping.2 :=
  linearizable (.of_isSome _ _ : (machine Nat Bool).Run Mealy.free (init []) [] overlapping.1
    overlapping.2)

example : overlapping.2 =
    [.call false .wait, .call true (.push (.back 5)), .ret true (.push (.back 5)) .unit,
      .call true (.push (.front 6)), .ret true (.push (.front 6)) .unit, .ret false .wait .unit,
      .call false .popFront, .ret false .popFront (.item (some 6))] := by
  decide +kernel

end TsQueueCalls

end AsioNetworking
