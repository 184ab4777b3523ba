import Mathlib.Data.BitVec

/-!
# Masks

When two words agree in what is left of them after masks, shifts and an `or`.
-/

namespace Masks

variable {w : Nat} {x m a b a' b' A B : BitVec w}

theorem eq_iff_getLsbD : x = m ↔ ∀ i, x.getLsbD i = m.getLsbD i :=
  ⟨fun h i => by rw [h], fun h => BitVec.eq_of_getLsbD_eq fun i _ => h i⟩

theorem and_eq_zero_iff : x &&& m = 0#w ↔ ∀ i, m.getLsbD i = true → x.getLsbD i = false := by
  constructor
  · intro h i hm
    have hi := congrArg (·.getLsbD i) h
    simpa [hm] using hi
  · intro h
    apply BitVec.eq_of_getLsbD_eq
    intro i _
    cases hm : m.getLsbD i with
    | false => simp [hm]
    | true => simp [hm, h i hm]

theorem ushiftRight_and_eq_zero_iff (k : Nat) : (x >>> k) &&& m = 0#w ↔ x &&& (m <<< k) = 0#w := by
  simp only [and_eq_zero_iff, BitVec.getLsbD_ushiftRight, BitVec.getLsbD_shiftLeft]
  constructor
  · intro h j hj
    simp only [Bool.and_eq_true, decide_eq_true_eq, Bool.not_eq_true', decide_eq_false_iff_not] at hj
    have := h (j - k) hj.2
    rwa [show k + (j - k) = j by omega] at this
  · intro h i hi
    by_cases hk : k + i < w
    · exact h (k + i) (by simp [hk, hi])
    · exact BitVec.getLsbD_of_ge _ _ (by omega)

theorem shiftLeft_and_eq_zero_iff (k : Nat) : (x <<< k) &&& m = 0#w ↔ x &&& (m >>> k) = 0#w := by
  rw [BitVec.and_comm, BitVec.and_comm x]
  exact (ushiftRight_and_eq_zero_iff k).symm

theorem and_or_eq_zero_iff {m' : BitVec w} :
    x &&& (m ||| m') = 0#w ↔ x &&& m = 0#w ∧ x &&& m' = 0#w := by
  simp only [and_eq_zero_iff, BitVec.getLsbD_or, Bool.or_eq_true, or_imp, forall_and]

theorem xor_xor_xor_cancel (k : BitVec w) : a ^^^ k ^^^ (b ^^^ k) = a ^^^ b := by
  rw [BitVec.xor_assoc, BitVec.xor_comm b, ← BitVec.xor_assoc k, BitVec.xor_self, BitVec.zero_xor]

/-- What two masked words, or-ed into one, tell of them: the bits under one mask alone, and under
both masks the `or` of the bits. -/
theorem select_eq_iff :
    a &&& A ||| b &&& B = a' &&& A ||| b' &&& B ↔
      (a ^^^ a') &&& (A &&& ~~~B) = 0#w ∧ (b ^^^ b') &&& (B &&& ~~~A) = 0#w ∧
        ((a ||| b) ^^^ (a' ||| b')) &&& (A &&& B) = 0#w := by
  simp only [eq_iff_getLsbD, ← forall_and]
  apply forall_congr'
  intro i
  by_cases hi : i < w
  · simp only [BitVec.getLsbD_or, BitVec.getLsbD_and, BitVec.getLsbD_xor, BitVec.getLsbD_not,
      BitVec.getLsbD_zero, hi, decide_true, Bool.true_and]
    cases A.getLsbD i <;> cases B.getLsbD i <;> cases a.getLsbD i <;> cases b.getLsbD i <;>
      cases a'.getLsbD i <;> cases b'.getLsbD i <;> decide
  · simp [BitVec.getLsbD_of_ge _ _ (Nat.not_lt.mp hi)]

end Masks
