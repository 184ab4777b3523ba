import AsioNetworking.Lib.LockOrder
import AsioNetworking.TsQueue.Step

/-!
# No deadlock

A push takes `m_oMuxBlocking` while it holds `m_oMuxQueue`. `wait` takes the two in the other order,
but gives up the one before it takes the other, also when it is woken.
-/

namespace AsioNetworking

variable {α ι : Type} [DecidableEq ι]

inductive QueueMutex where
  | muxQueue | muxBlocking
  deriving DecidableEq

namespace QueueMutex

def level : QueueMutex → Nat
  | .muxQueue => 0
  | .muxBlocking => 1

instance : Preorder QueueMutex := Preorder.lift level

theorem level_le (k : QueueMutex) : k.level ≤ 1 := by
  cases k <;> simp [level]

instance : WellFoundedGT QueueMutex where
  wf := by
    apply Subrelation.wf (r := fun a b => 1 - a.level < 1 - b.level) _
      (InvImage.wf (fun k => 1 - level k) Nat.lt_wfRel.wf)
    intro a b (hab : b.level < a.level)
    have ha := a.level_le
    omega

end QueueMutex

namespace ThreadPc

/-- The mutex that the thread is about to take. -/
def wants : ThreadPc α → Option QueueMutex
  | .lockQueue _ => some .muxQueue
  | .lockBlocking _ | .lockToWait | .woken => some .muxBlocking
  | _ => none

def holds (pc : ThreadPc α) : QueueMutex → Bool
  | .muxQueue => pc.holdsQueue
  | .muxBlocking => pc.holdsBlocking

theorem holds_lt {pc : ThreadPc α} {k k' : QueueMutex} (hw : pc.wants = some k)
    (hh : pc.holds k' = true) : k' < k := by
  cases pc with
  | lockBlocking push =>
      cases hw
      cases k' with
      | muxQueue => exact Nat.zero_lt_one
      | muxBlocking => cases hh
  | lockQueue | lockToWait | woken => cases k' <;> cases hh
  | _ => cases hw

end ThreadPc

namespace TsQueue

variable {s : TsQueue α ι} {h : List (QueueEffect α ι)} {items : List α} {i j : ι} {k : QueueMutex}

/-- The thread that holds the mutex. -/
def holder (s : TsQueue α ι) : QueueMutex → Option ι
  | .muxQueue => s.muxQueue
  | .muxBlocking => s.muxBlocking

/-- `i` is about to take a mutex that `j` holds. -/
def WaitsFor (s : TsQueue α ι) : ι → ι → Prop :=
  LockOrder.WaitsFor (fun i k => s.holder k = some i) fun i k => (s.pc i).wants = some k

omit [DecidableEq ι] in
theorem LockInv.holds (hi : LockInv s) : (s.pc i).holds k = true ↔ s.holder k = some i := by
  cases k with
  | muxQueue => exact hi.queue i
  | muxBlocking => exact hi.blocking i

omit [DecidableEq ι] in
theorem LockInv.ordered (hi : LockInv s) :
    LockOrder.Ordered (fun i k => s.holder k = some i) fun i k => (s.pc i).wants = some k :=
  fun _ _ _ hw hh => ThreadPc.holds_lt hw (hi.holds.mpr hh)

/-- A thread that wants a mutex takes its next step as soon as the mutex is free, and only then. -/
theorem step_isSome_iff (hw : (s.pc i).wants = some k) :
    (s.step i).isSome = true ↔ s.holder k = none := by
  cases hpc : s.pc i with
  | lockQueue call =>
      rw [hpc] at hw
      cases hw
      cases hm : s.muxQueue <;> simp [step, hpc, holder, hm]
  | lockBlocking | lockToWait | woken =>
      rw [hpc] at hw
      cases hw
      cases hm : s.muxBlocking <;> simp [step, hpc, holder, hm, takeBlocking]
  | _ => rw [hpc] at hw; cases hw

/-- A step of the code of the thread. -/
def OwnStep (i : ι) (e : QueueEvent α ι) : Prop := e = .step i ∨ ∃ woken, e = .notify i woken

/-- A holder that is not kept waiting can go on. -/
theorem LockInv.holder_steps (hi : LockInv s) (hk : s.holder k = some i)
    (hw : ∀ j, ¬ s.WaitsFor i j) : ∃ e, OwnStep i e ∧ (s.next e).isSome = true := by
  have hh := hi.holds.mpr hk
  by_cases hwant : ∃ m, (s.pc i).wants = some m
  · obtain ⟨m, hm⟩ := hwant
    refine ⟨.step i, .inl rfl, (step_isSome_iff hm).mpr ?_⟩
    cases hf : s.holder m with
    | none => rfl
    | some j => exact absurd ⟨m, hm, hf⟩ (hw j)
  · cases hpc : s.pc i with
    | notify push =>
        cases hws : s.waiters with
        | nil => exact ⟨.notify i none, .inr ⟨_, rfl⟩, by simp [next, hpc, notifyOne, hws]⟩
        | cons j ws => exact ⟨.notify i (some j), .inr ⟨_, rfl⟩, by simp [next, hpc, notifyOne, hws]⟩
    | work | unlockBlocking | unlockQueue | wait | unlockAfterWait =>
        exact ⟨.step i, .inl rfl, by simp [next, TsQueue.step, hpc]⟩
    | lockQueue | lockBlocking | lockToWait | woken =>
        exact absurd ⟨_, by rw [hpc]; rfl⟩ hwant
    | idle | blocked =>
        rw [hpc] at hh
        cases k <;> cases hh

/-- In every run, whatever the threads call: no cycle of threads waits for one another's mutexes, and
while a thread cannot take the mutex that it is about to take, some thread that holds a mutex can go
on. -/
theorem no_deadlock (hr : (machine α ι).Run Mealy.free (init items) [] s h) :
    (∀ i, ¬ Relation.TransGen s.WaitsFor i i) ∧
    ∀ i k, (s.pc i).wants = some k → s.step i = none →
      ∃ j k', s.holder k' = some j ∧ ∃ e, OwnStep j e ∧ (s.next e).isSome = true := by
  have hi : LockInv s :=
    hr.invariant (P := fun s _ => LockInv s) (init_lockInv items)
      fun _ _ _ _ _ hi _ hn => hi.step (next_queueStep hn)
  refine ⟨fun i => hi.ordered.no_cycle, fun i k hw hs => ?_⟩
  cases hk : s.holder k with
  | none =>
      have hsome := (step_isSome_iff hw).mpr hk
      rw [hs] at hsome
      cases hsome
  | some j =>
      obtain ⟨l, m, hl, hfree⟩ := hi.ordered.exists_running ⟨k, hw, hk⟩
      exact ⟨l, m, hl, hi.holder_steps hl hfree⟩

/-- `false` has taken `m_oMuxBlocking` to block on the condition variable; `true` holds `m_oMuxQueue`
in a push and waits for it. -/
def nested : TsQueue Nat Bool × List (QueueEffect Nat Bool) :=
  ((machine Nat Bool).exec Mealy.free (init []) []
    [.call false .wait, .step false, .step false, .step false, .step false,
      .call true (.push (.back 5)), .step true, .step true]).get (by decide +kernel)

theorem no_deadlock_nested :
    (∀ i, ¬ Relation.TransGen nested.1.WaitsFor i i) ∧
    ∀ i k, (nested.1.pc i).wants = some k → nested.1.step i = none →
      ∃ j k', nested.1.holder k' = some j ∧
        ∃ e, OwnStep j e ∧ (nested.1.next e).isSome = true :=
  no_deadlock (.of_isSome _ _ : (machine Nat Bool).Run Mealy.free (init []) [] nested.1 nested.2)

example : (nested.1.pc true).wants = some .muxBlocking ∧ nested.1.holder .muxBlocking = some false := by
  decide +kernel

end TsQueue

end AsioNetworking
