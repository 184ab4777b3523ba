import AsioNetworking.Lib.Mutex
import AsioNetworking.TsQueue

/-!
# Steps of the queue

`QueueStep` says once what a step of a thread does; from it follows who holds the two mutexes.
-/

namespace AsioNetworking

variable {α ι : Type} [DecidableEq ι]

namespace TsQueue

inductive QueueStep (s : TsQueue α ι) : QueueEvent α ι → TsQueue α ι → Prop where
  | call (i call) : s.pc i = .idle → QueueStep s (.call i call) (s.setPc i (.lockQueue call))
  | lockQueue (i call) : s.pc i = .lockQueue call → s.muxQueue = none →
      QueueStep s (.step i) ({ s with muxQueue := some i }.setPc i (.work call))
  | work (i call) : s.pc i = .work call → QueueStep s (.step i)
      ({ s with deqQueue := (work i call s.deqQueue).1 }.setPc i (work i call s.deqQueue).2.1)
  | lockBlocking (i push) : s.pc i = .lockBlocking push → s.muxBlocking = none →
      QueueStep s (.step i) ({ s with muxBlocking := some i }.setPc i (.notify push))
  | notify (i push) : s.pc i = .notify push → s.waiters = [] →
      QueueStep s (.notify i none) (s.setPc i (.unlockBlocking push))
  | notifyOne (i push j) : s.pc i = .notify push → j ∈ s.waiters →
      QueueStep s (.notify i (some j)) ((s.wake j).setPc i (.unlockBlocking push))
  | unlockBlocking (i push) : s.pc i = .unlockBlocking push → QueueStep s (.step i)
      ({ s with muxBlocking := none }.setPc i (.unlockQueue (.push push) false))
  | unlockQueue (i call isEmpty) : s.pc i = .unlockQueue call isEmpty → QueueStep s (.step i)
      ({ s with muxQueue := none }.setPc i (afterQueue call isEmpty))
  | lockToWait (i) : s.pc i = .lockToWait → s.muxBlocking = none →
      QueueStep s (.step i) ({ s with muxBlocking := some i }.setPc i .wait)
  | wait (i) : s.pc i = .wait → QueueStep s (.step i)
      ({ s with muxBlocking := none, waiters := i :: s.waiters }.setPc i .blocked)
  | spurious (i) : i ∈ s.waiters → QueueStep s (.spurious i) (s.wake i)
  | woken (i) : s.pc i = .woken → s.muxBlocking = none →
      QueueStep s (.step i) ({ s with muxBlocking := some i }.setPc i .unlockAfterWait)
  | unlockAfterWait (i) : s.pc i = .unlockAfterWait →
      QueueStep s (.step i) ({ s with muxBlocking := none }.setPc i (.lockQueue .wait))

theorem takeBlocking_eq_some {s s' : TsQueue α ι} {i pc o}
    (h : s.takeBlocking i pc = some (s', o)) :
    s.muxBlocking = none ∧ s' = { s with muxBlocking := some i }.setPc i pc := by
  simp only [takeBlocking] at h
  split at h
  · rename_i hm
    cases h
    exact ⟨Option.isNone_iff_eq_none.mp hm, rfl⟩
  · cases h

theorem next_queueStep {s s' : TsQueue α ι} {e o} (hn : s.next e = some (s', o)) :
    QueueStep s e s' := by
  cases e with
  | call i call =>
      simp only [next] at hn
      split at hn <;> cases hn
      exact .call i call (by assumption)
  | step i =>
      simp only [next, step] at hn
      split at hn
      · cases hn
      · rename_i call hpc
        split at hn <;> cases hn
        rename_i hm
        exact .lockQueue i call hpc (Option.isNone_iff_eq_none.mp hm)
      · rename_i call hpc
        cases hn
        exact .work i call hpc
      · rename_i push hpc
        obtain ⟨hm, rfl⟩ := takeBlocking_eq_some hn
        exact .lockBlocking i push hpc hm
      · cases hn
      · rename_i push hpc
        cases hn
        exact .unlockBlocking i push hpc
      · rename_i call isEmpty hpc
        cases hn
        exact .unlockQueue i call isEmpty hpc
      · rename_i hpc
        obtain ⟨hm, rfl⟩ := takeBlocking_eq_some hn
        exact .lockToWait i hpc hm
      · rename_i hpc
        cases hn
        exact .wait i hpc
      · cases hn
      · rename_i hpc
        obtain ⟨hm, rfl⟩ := takeBlocking_eq_some hn
        exact .woken i hpc hm
      · rename_i hpc
        cases hn
        exact .unlockAfterWait i hpc
  | notify i woken =>
      simp only [next] at hn
      split at hn
      · rename_i push hpc
        split at hn
        · cases hn
        · rename_i s₁ hs₁
          cases hn
          cases woken with
          | none =>
              simp only [notifyOne] at hs₁
              split at hs₁ <;> cases hs₁
              rename_i hw
              exact .notify i push hpc (List.isEmpty_iff.mp hw)
          | some j =>
              simp only [notifyOne] at hs₁
              split at hs₁ <;> cases hs₁
              rename_i hj
              exact .notifyOne i push j hpc hj
      · cases hn
  | spurious i =>
      simp only [next] at hn
      split at hn <;> cases hn
      rename_i hi
      exact .spurious i hi

/-! ## The mutexes and the condition variable -/

end TsQueue

namespace ThreadPc

def holdsQueue : ThreadPc α → Bool
  | .work _ | .lockBlocking _ | .notify _ | .unlockBlocking _ | .unlockQueue _ _ => true
  | _ => false

def holdsBlocking : ThreadPc α → Bool
  | .notify _ | .unlockBlocking _ | .wait | .unlockAfterWait => true
  | _ => false

end ThreadPc

namespace TsQueue

structure LockInv (s : TsQueue α ι) : Prop where
  queue : Mutex.Held ThreadPc.holdsQueue s.pc s.muxQueue
  blocking : Mutex.Held ThreadPc.holdsBlocking s.pc s.muxBlocking
  waiters : ∀ i, i ∈ s.waiters ↔ s.pc i = .blocked

variable {s s' : TsQueue α ι} {i : ι}

omit [DecidableEq ι] in
theorem work_pc (call : QueueCall α) (items : List α) :
    (work i call items).2.1.holdsQueue = true ∧ (work i call items).2.1.holdsBlocking = false ∧
      (work i call items).2.1 ≠ .blocked := by
  cases call <;> simp [work, ThreadPc.holdsQueue, ThreadPc.holdsBlocking]

theorem afterQueue_pc (call : QueueCall α) (isEmpty : Bool) :
    (afterQueue call isEmpty).holdsQueue = false ∧ (afterQueue call isEmpty).holdsBlocking = false ∧
      afterQueue call isEmpty ≠ .blocked := by
  cases call <;> cases isEmpty <;>
    simp [afterQueue, ThreadPc.holdsQueue, ThreadPc.holdsBlocking]

theorem waiters_keep {pc : ι → ThreadPc α} {ws : List ι} {p : ThreadPc α}
    (hw : ∀ j, j ∈ ws ↔ pc j = .blocked) (hi : pc i ≠ .blocked) (hp : p ≠ .blocked) (j : ι) :
    j ∈ ws ↔ Function.update pc i p j = .blocked := by
  by_cases hij : j = i
  · subst hij
    rw [Function.update_self, hw]
    exact iff_of_false hi hp
  · rw [Function.update_of_ne hij, hw]

theorem LockInv.wake (hi : LockInv s) (hb : i ∈ s.waiters) : LockInv (s.wake i) := by
  have hpc := (hi.waiters i).mp hb
  refine ⟨hi.queue.keep (by rw [hpc]; rfl), hi.blocking.keep (by rw [hpc]; rfl), fun j => ?_⟩
  by_cases hij : j = i
  · subst hij
    simp [TsQueue.wake, setPc]
  · simp [TsQueue.wake, setPc, hij, hi.waiters]

theorem LockInv.step {e} (hi : LockInv s) (hs : QueueStep s e s') : LockInv s' := by
  cases hs with
  | call i call hpc =>
      exact ⟨hi.queue.keep (by rw [hpc]; rfl), hi.blocking.keep (by rw [hpc]; rfl),
        waiters_keep hi.waiters (by simp [hpc]) (by simp)⟩
  | lockQueue i call hpc hm =>
      exact ⟨(hm ▸ hi.queue).take rfl, hi.blocking.keep (by rw [hpc]; rfl),
        waiters_keep hi.waiters (by simp [hpc]) (by simp)⟩
  | work i call hpc =>
      obtain ⟨hq, hb, hw⟩ := work_pc (i := i) call s.deqQueue
      exact ⟨hi.queue.keep (by rw [hpc, hq]; rfl), hi.blocking.keep (by rw [hpc, hb]; rfl),
        waiters_keep hi.waiters (by simp [hpc]) hw⟩
  | lockBlocking i push hpc hm =>
      exact ⟨hi.queue.keep (by rw [hpc]; rfl), (hm ▸ hi.blocking).take rfl,
        waiters_keep hi.waiters (by simp [hpc]) (by simp)⟩
  | notify i push hpc hw =>
      exact ⟨hi.queue.keep (by rw [hpc]; rfl), hi.blocking.keep (by rw [hpc]; rfl),
        waiters_keep hi.waiters (by simp [hpc]) (by simp)⟩
  | notifyOne i push j hpc hj =>
      have hij : i ≠ j := by
        rintro rfl
        have := (hi.waiters i).mp hj
        rw [hpc] at this
        cases this
      have hpc' : (s.wake j).pc i = .notify push := by
        simp [TsQueue.wake, setPc, Function.update_of_ne hij, hpc]
      have hi := hi.wake hj
      exact ⟨hi.queue.keep (by rw [hpc']; rfl), hi.blocking.keep (by rw [hpc']; rfl),
        waiters_keep hi.waiters (by simp [hpc']) (by simp)⟩
  | unlockBlocking i push hpc =>
      exact ⟨hi.queue.keep (by rw [hpc]; rfl), hi.blocking.release (by rw [hpc]; rfl) rfl,
        waiters_keep hi.waiters (by simp [hpc]) (by simp)⟩
  | unlockQueue i call isEmpty hpc =>
      obtain ⟨hq, hb, hw⟩ := afterQueue_pc call isEmpty
      exact ⟨hi.queue.release (by rw [hpc]; rfl) hq, hi.blocking.keep (by rw [hpc, hb]; rfl),
        waiters_keep hi.waiters (by simp [hpc]) hw⟩
  | lockToWait i hpc hm =>
      exact ⟨hi.queue.keep (by rw [hpc]; rfl), (hm ▸ hi.blocking).take rfl,
        waiters_keep hi.waiters (by simp [hpc]) (by simp)⟩
  | wait i hpc =>
      refine ⟨hi.queue.keep (by rw [hpc]; rfl), hi.blocking.release (by rw [hpc]; rfl) rfl,
        fun j => ?_⟩
      by_cases hij : j = i
      · subst hij
        simp [setPc]
      · simp [setPc, hij, hi.waiters]
  | spurious i hb => exact hi.wake hb
  | woken i hpc hm =>
      exact ⟨hi.queue.keep (by rw [hpc]; rfl), (hm ▸ hi.blocking).take rfl,
        waiters_keep hi.waiters (by simp [hpc]) (by simp)⟩
  | unlockAfterWait i hpc =>
      exact ⟨hi.queue.keep (by rw [hpc]; rfl), hi.blocking.release (by rw [hpc]; rfl) rfl,
        waiters_keep hi.waiters (by simp [hpc]) (by simp)⟩

omit [DecidableEq ι] in
theorem init_lockInv (items : List α) : LockInv (init items : TsQueue α ι) :=
  ⟨fun _ => by simp [init, ThreadPc.holdsQueue], fun _ => by simp [init, ThreadPc.holdsBlocking],
    fun _ => by simp [init]⟩

end TsQueue

end AsioNetworking
