import AsioNetworking.TsQueue.Step

/-!
# Wake-ups

`wait` tests the deque under one mutex and blocks under another. A push that notifies between the
two wakes nobody; as long as none does, a waiter that sleeps over an item is woken by the push that
brought it.
-/

namespace AsioNetworking

variable {α ι : Type} [DecidableEq ι]

namespace ThreadPc

/-- The thread has found the deque empty in `wait` and is going to block, or is blocked. -/
def dozes : ThreadPc α → Bool
  | .unlockQueue .wait true | .lockToWait | .wait | .blocked => true
  | _ => false

def owes : ThreadPc α → Bool
  | .lockBlocking _ | .notify _ => true
  | _ => false

end ThreadPc

namespace TsQueue

variable {w i : ι} {s s' : TsQueue α ι} {pc : ι → ThreadPc α} {items items' : List α}
  {p : ThreadPc α}

/-- No thread but `w` calls `wait`. -/
def OneWaiter (w : ι) : QueueEvent α ι → Prop
  | .call i .wait => i = w
  | _ => True

/-- No thread notifies while `w` has found the deque empty and has still to take `m_oMuxBlocking`. -/
def NoNotifyBetween (w : ι) (s : TsQueue α ι) : QueueEvent α ι → Prop
  | .notify _ _ => s.pc w ≠ .lockToWait
  | _ => True

instance (w : ι) (e : QueueEvent α ι) : Decidable (OneWaiter w e) := by
  unfold OneWaiter
  split <;> infer_instance

instance [DecidableEq α] (w : ι) (s : TsQueue α ι) (e : QueueEvent α ι) :
    Decidable (NoNotifyBetween w s e) := by
  unfold NoNotifyBetween
  split <;> infer_instance

/-- Over an item `w` dozes only while a push has still to notify. -/
def Owed (w : ι) (pc : ι → ThreadPc α) (items : List α) : Prop :=
  (pc w).dozes = true → items ≠ [] → ∃ j, (pc j).owes = true

structure WakeInv (w : ι) (s : TsQueue α ι) : Prop where
  locks : LockInv s
  only : ∀ i, (s.pc i).call? = some .wait → i = w
  owed : Owed w s.pc s.deqQueue

theorem Owed.move (ho : Owed w pc items) (hd : p.dozes = true → (pc i).dozes = true ∨ items' = [])
    (hp : (pc i).owes = true → p.owes = true) (hq : items' ≠ [] → items ≠ [] ∨ p.owes = true) :
    Owed w (Function.update pc i p) items' := by
  intro hdoze hne
  rcases hq hne with hne' | howes
  · have hdoze' : (pc w).dozes = true := by
      by_cases hwi : w = i
      · subst hwi
        rw [Function.update_self] at hdoze
        exact (hd hdoze).resolve_right hne
      · rwa [Function.update_of_ne hwi] at hdoze
    obtain ⟨j, hj⟩ := ho hdoze' hne'
    refine ⟨j, ?_⟩
    by_cases hji : j = i
    · subst hji
      rw [Function.update_self]
      exact hp hj
    · rwa [Function.update_of_ne hji]
  · exact ⟨i, by rwa [Function.update_self]⟩

omit [DecidableEq ι] in
theorem dozes_work (call : QueueCall α) :
    (work i call items).2.1.dozes = true → (work i call items).1 = [] := by
  cases call with
  | wait => cases items <;> simp [work, ThreadPc.dozes]
  | _ => simp [work, ThreadPc.dozes]

omit [DecidableEq ι] in
theorem ne_nil_work (call : QueueCall α) :
    (work i call items).1 ≠ [] → items ≠ [] ∨ (work i call items).2.1.owes = true := by
  cases call with
  | push p => exact fun _ => Or.inr rfl
  | clear => intro h; exact absurd rfl h
  | popFront => intro h; left; rintro rfl; exact h rfl
  | popBack => intro h; left; rintro rfl; exact h rfl
  | _ => exact Or.inl

theorem call?_afterQueue (call : QueueCall α) (isEmpty : Bool) :
    (afterQueue call isEmpty).call? = some .wait → call = .wait := by
  cases call <;> cases isEmpty <;> simp [afterQueue, ThreadPc.call?]

theorem dozes_afterQueue (call : QueueCall α) (isEmpty : Bool) :
    (afterQueue call isEmpty).dozes = true → (ThreadPc.unlockQueue call isEmpty).dozes = true := by
  cases call <;> cases isEmpty <;> simp [afterQueue, ThreadPc.dozes]

omit [DecidableEq ι] in
/-- A notification finds the waiter blocked, or wide awake: the mutexes keep the other places free,
and the guard the one between them. -/
theorem WakeInv.notified (hi : WakeInv w s) {push} (hpc : s.pc i = .notify push)
    (hg : s.pc w ≠ .lockToWait) : (s.pc w).dozes = true → s.pc w = .blocked := by
  intro hd
  have hq : (s.pc i).holdsQueue = true := by rw [hpc]; rfl
  have hb : (s.pc i).holdsBlocking = true := by rw [hpc]; rfl
  cases hw : s.pc w with
  | unlockQueue call isEmpty =>
      have hqw : (s.pc w).holdsQueue = true := by rw [hw]; rfl
      rw [hi.locks.queue.unique hq hqw, hw] at hpc
      cases hpc
  | wait =>
      have hbw : (s.pc w).holdsBlocking = true := by rw [hw]; rfl
      rw [hi.locks.blocking.unique hb hbw, hw] at hpc
      cases hpc
  | lockToWait => exact absurd hw hg
  | blocked => rfl
  | _ => rw [hw] at hd; cases hd

theorem wait_of_update (hp : p.call? = some .wait → (pc i).call? = some .wait) {j : ι} :
    (Function.update pc i p j).call? = some .wait → (pc j).call? = some .wait := by
  by_cases hji : j = i
  · subst hji
    rw [Function.update_self]
    exact hp
  · rw [Function.update_of_ne hji]
    exact fun h => h

theorem QueueStep.call_wait {e} (hs : QueueStep s e s') (hi : LockInv s) {j : ι}
    (hj : (s'.pc j).call? = some .wait) : (s.pc j).call? = some .wait ∨ e = .call j .wait := by
  have woken {i} (hb : i ∈ s.waiters) : ((s.wake i).pc j).call? = some .wait →
      (s.pc j).call? = some .wait :=
    wait_of_update fun _ => by rw [(hi.waiters i).mp hb]; rfl
  cases hs with
  | call i call hpc =>
      by_cases hji : j = i
      · subst hji
        simp only [setPc, Function.update_self, ThreadPc.call?, Option.some.injEq] at hj
        exact Or.inr (by rw [hj])
      · simp only [setPc, Function.update_of_ne hji] at hj
        exact Or.inl hj
  | work i call hpc =>
      refine Or.inl (wait_of_update (fun h => ?_) hj)
      rw [hpc]
      cases call <;> first | rfl | cases h
  | unlockQueue i call isEmpty hpc =>
      refine Or.inl (wait_of_update (fun h => ?_) hj)
      rw [hpc, call?_afterQueue call isEmpty h]
      rfl
  | notifyOne i push j' hpc hb => exact Or.inl (woken hb (wait_of_update (fun h => by cases h) hj))
  | spurious i hb => exact Or.inl (woken hb hj)
  | lockQueue i call hpc => exact Or.inl (wait_of_update (fun h => by rw [hpc]; exact h) hj)
  | lockBlocking i push hpc => exact Or.inl (wait_of_update (fun h => by cases h) hj)
  | notify i push hpc => exact Or.inl (wait_of_update (fun h => by cases h) hj)
  | unlockBlocking i push hpc => exact Or.inl (wait_of_update (fun h => by cases h) hj)
  | lockToWait i hpc => exact Or.inl (wait_of_update (fun _ => by rw [hpc]; rfl) hj)
  | wait i hpc => exact Or.inl (wait_of_update (fun _ => by rw [hpc]; rfl) hj)
  | woken i hpc => exact Or.inl (wait_of_update (fun _ => by rw [hpc]; rfl) hj)
  | unlockAfterWait i hpc => exact Or.inl (wait_of_update (fun _ => by rw [hpc]; rfl) hj)

theorem WakeInv.step {e} (hi : WakeInv w s) (hw : OneWaiter w e) (hg : NoNotifyBetween w s e)
    (hs : QueueStep s e s') : WakeInv w s' := by
  refine ⟨hi.locks.step hs, fun j hj => ?_, ?_⟩
  · rcases hs.call_wait hi.locks hj with hj | rfl
    · exact hi.only j hj
    · exact hw
  have same {i p} (hd : p.dozes = true → (s.pc i).dozes = true)
      (hp : (s.pc i).owes = true → p.owes = true) :
      Owed w (Function.update s.pc i p) s.deqQueue :=
    hi.owed.move (fun h => Or.inl (hd h)) hp Or.inl
  cases hs with
  | call i call hpc => exact same (fun h => by cases h) (by rw [hpc]; exact fun h => by cases h)
  | lockQueue i call hpc => exact same (fun h => by cases h) (by rw [hpc]; exact fun h => by cases h)
  | work i call hpc =>
      exact hi.owed.move (fun h => Or.inr (dozes_work call h)) (by rw [hpc]; exact fun h => by cases h)
        (ne_nil_work call)
  | lockBlocking i push hpc => exact same (fun h => by cases h) fun _ => rfl
  | notify i push hpc hnone =>
      intro hd hne
      by_cases hwi : w = i
      · subst hwi
        simp [setPc, ThreadPc.dozes] at hd
      · simp only [setPc, Function.update_of_ne hwi] at hd
        have hb := (hi.locks.waiters w).mpr (hi.notified hpc hg hd)
        rw [hnone] at hb
        cases hb
  | notifyOne i push j hpc hj =>
      have hjw : j = w := hi.only j (by rw [(hi.locks.waiters j).mp hj]; rfl)
      intro hd _
      exfalso
      subst hjw
      by_cases hwi : j = i
      · subst hwi
        simp [setPc, ThreadPc.dozes] at hd
      · simp [setPc, TsQueue.wake, Function.update_of_ne hwi, ThreadPc.dozes] at hd
  | unlockBlocking i push hpc => exact same (fun h => by cases h) (by rw [hpc]; exact fun h => by cases h)
  | unlockQueue i call isEmpty hpc =>
      exact same (fun h => by rw [hpc]; exact dozes_afterQueue call isEmpty h)
        (by rw [hpc]; exact fun h => by cases h)
  | lockToWait i hpc => exact same (fun _ => by rw [hpc]; rfl) (by rw [hpc]; exact fun h => by cases h)
  | wait i hpc => exact same (fun _ => by rw [hpc]; rfl) (by rw [hpc]; exact fun h => by cases h)
  | spurious i hb =>
      exact same (fun h => by cases h) (by
        rw [(hi.locks.waiters i).mp hb]
        exact fun h => by cases h)
  | woken i hpc => exact same (fun h => by cases h) (by rw [hpc]; exact fun h => by cases h)
  | unlockAfterWait i hpc =>
      exact same (fun h => by cases h) (by rw [hpc]; exact fun h => by cases h)

/-- In every run with one waiter, where no thread notifies between its test of the deque and its
taking of `m_oMuxBlocking`: while no push is in progress, the waiter is not blocked over an item. -/
theorem no_lost_wakeup (hr : (machine α ι).Run
    (fun s _ e => OneWaiter w e ∧ NoNotifyBetween w s e) (init items) [] s h)
    (hp : ∀ i, (s.pc i).isPushing = false) : ¬ (s.pc w = .blocked ∧ s.deqQueue ≠ []) := by
  rintro ⟨hb, hne⟩
  have hi : WakeInv w s := by
    refine hr.invariant (P := fun s _ => WakeInv w s) ⟨init_lockInv items, ?_, ?_⟩
      fun _ _ _ _ _ hi hg hn => hi.step hg.1 hg.2 (next_queueStep hn)
    · intro i h
      cases h
    · intro h
      cases h
  obtain ⟨j, hj⟩ := hi.owed (by rw [hb]; rfl) hne
  have hpush := hp j
  cases hpc : s.pc j with
  | lockBlocking push => rw [hpc] at hpush; cases hpush
  | notify push => rw [hpc] at hpush; cases hpush
  | _ => rw [hpc] at hj; cases hj

/-! ## Two runs -/

/-- `false` finds the deque empty and blocks; `true` pushes an item and wakes it. -/
def woken : TsQueue Nat Bool × List (QueueEffect Nat Bool) :=
  ((machine Nat Bool).exec (fun s _ e => OneWaiter false e ∧ NoNotifyBetween false s e) (init []) []
    [.call false .wait, .step false, .step false, .step false, .step false, .step false,
      .call true (.push (.back 5)), .step true, .step true, .step true, .notify true (some false),
      .step true, .step true]).get (by decide +kernel)

theorem no_lost_wakeup_woken : ¬ (woken.1.pc false = .blocked ∧ woken.1.deqQueue ≠ []) :=
  no_lost_wakeup (.of_isSome _ _ : (machine Nat Bool).Run
    (fun s _ e => OneWaiter false e ∧ NoNotifyBetween false s e) (init []) [] woken.1 woken.2)
    (by decide +kernel)

/-- `true` pushes an item after `false` has found the deque empty, and before `false` blocks. -/
def lost : TsQueue Nat Bool × List (QueueEffect Nat Bool) :=
  ((machine Nat Bool).exec (fun _ _ e => OneWaiter false e) (init []) []
    [.call false .wait, .step false, .step false, .step false,
      .call true (.push (.back 5)), .step true, .step true, .step true, .notify true none,
      .step true, .step true, .step false, .step false]).get (by decide +kernel)

theorem lost_wakeup :
    ¬ ∀ (s : TsQueue Nat Bool) (h : List (QueueEffect Nat Bool)),
      (machine Nat Bool).Run (fun _ _ e => OneWaiter false e) (init []) [] s h →
        (∀ i, (s.pc i).isPushing = false) → ¬ (s.pc false = .blocked ∧ s.deqQueue ≠ []) := by
  intro hall
  have hl := hall lost.1 lost.2 (.of_isSome _ _) (by decide +kernel)
  exact absurd hl (by decide +kernel)

end TsQueue

end AsioNetworking
