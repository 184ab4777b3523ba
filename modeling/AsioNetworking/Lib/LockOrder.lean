import Mathlib.Logic.Relation
import Mathlib.Order.WellFounded

/-!
# Ordered locks

Threads hold some locks and wait for others. Where a thread waits only for locks above all that it
holds, no cycle of threads waits for one another, and some holder is not kept waiting.
-/

namespace LockOrder

variable {ι κ : Type*} [Preorder κ] {holds wants : ι → κ → Prop} {i j : ι}

/-- A thread waits only for locks above all that it holds. -/
def Ordered (holds wants : ι → κ → Prop) : Prop :=
  ∀ i k k', wants i k → holds i k' → k' < k

omit [Preorder κ] in
/-- `i` waits for a lock that `j` holds. -/
def WaitsFor (holds wants : ι → κ → Prop) (i j : ι) : Prop := ∃ k, wants i k ∧ holds j k

/-- Along a chain of waiting threads the locks rise. -/
theorem Ordered.chain (ho : Ordered holds wants)
    (hc : Relation.TransGen (WaitsFor holds wants) i j) : ∃ k k', wants i k ∧ k ≤ k' ∧ holds j k' := by
  induction hc with
  | single hw =>
      obtain ⟨k, hi, hj⟩ := hw
      exact ⟨k, k, hi, le_refl k, hj⟩
  | tail _ hw ih =>
      obtain ⟨k, k', hi, hle, hj⟩ := ih
      obtain ⟨m, hjm, hm⟩ := hw
      exact ⟨k, m, hi, hle.trans (ho _ _ _ hjm hj).le, hm⟩

theorem Ordered.no_cycle (ho : Ordered holds wants) :
    ¬ Relation.TransGen (WaitsFor holds wants) i i := by
  intro hc
  obtain ⟨k, k', hk, hle, hk'⟩ := ho.chain hc
  exact absurd (ho i k k' hk hk') hle.not_gt

/-- Where there is no endless ascent among the locks, a thread that is kept waiting is so, in the
end, by a holder that is not. -/
theorem Ordered.exists_running [WellFoundedGT κ] (ho : Ordered holds wants)
    (hw : WaitsFor holds wants i j) : ∃ l k, holds l k ∧ ∀ m, ¬ WaitsFor holds wants l m := by
  obtain ⟨k, -, hj⟩ := hw
  induction k using WellFoundedGT.induction generalizing j with
  | ind k ih =>
      by_cases hb : ∃ m, WaitsFor holds wants j m
      · obtain ⟨m, k', hjk, hm⟩ := hb
        exact ih k' (ho j k' k hjk hj) hm
      · exact ⟨j, k, hj, fun m hm => hb ⟨m, hm⟩⟩

end LockOrder
