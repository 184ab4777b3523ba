import Mathlib.Logic.Function.Basic

/-!
# Mutexes

Each of many threads has a place in its code, and at some of the places it holds a mutex. The mutex
is a variable that names the thread that holds it.
-/

namespace Mutex

variable {ι κ : Type*} [DecidableEq ι] {holds : κ → Bool} {pc : ι → κ} {m : Option ι} {i j : ι}
  {p : κ}

omit [DecidableEq ι] in
/-- The mutex names a thread exactly when the thread is at a place where it holds it. -/
def Held (holds : κ → Bool) (pc : ι → κ) (m : Option ι) : Prop := ∀ i, holds (pc i) = true ↔ m = some i

omit [DecidableEq ι] in
/-- Mutual exclusion. -/
theorem Held.unique (h : Held holds pc m) (hi : holds (pc i) = true) (hj : holds (pc j) = true) :
    i = j := by
  have he := ((h i).mp hi).symm.trans ((h j).mp hj)
  exact Option.some.inj he

theorem Held.keep (h : Held holds pc m) (hp : holds p = holds (pc i)) :
    Held holds (Function.update pc i p) m := by
  intro j
  by_cases hij : j = i
  · subst hij
    rw [Function.update_self, hp]
    exact h j
  · rw [Function.update_of_ne hij]
    exact h j

theorem Held.take (h : Held holds pc none) (hp : holds p = true) :
    Held holds (Function.update pc i p) (some i) := by
  intro j
  by_cases hij : j = i
  · subst hij
    simp [hp]
  · have hj : holds (pc j) ≠ true := fun hj => by cases (h j).mp hj
    rw [Function.update_of_ne hij]
    exact ⟨fun hh => absurd hh hj, fun he => absurd (Option.some.inj he).symm hij⟩

theorem Held.release (h : Held holds pc m) (hi : holds (pc i) = true) (hp : holds p = false) :
    Held holds (Function.update pc i p) none := by
  intro j
  by_cases hij : j = i
  · subst hij
    simp [hp]
  · rw [Function.update_of_ne hij]
    exact ⟨fun hj => absurd (h.unique hj hi) hij, fun he => by cases he⟩

end Mutex
