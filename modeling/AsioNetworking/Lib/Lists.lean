import Mathlib.Data.List.Basic

/-!
# Lists

Taking one entry out of a list, and properties of histories that speak about what came before.
-/

namespace List

variable {ο : Type*}

theorem IsPrefix.eq_of_length_eq {l₁ l₂ l : List ο} (h₁ : l₁ <+: l) (h₂ : l₂ <+: l)
    (hl : l₁.length = l₂.length) : l₁ = l₂ :=
  (prefix_of_prefix_length_le h₁ h₂ (Nat.le_of_eq hl)).eq_of_length hl

/-! ## One entry -/

/-- The entry at an index, with what `eraseIdx` and `set` leave of the list. -/
theorem exists_split_of_getElem? {l : List ο} {j : Nat} {a : ο} (h : l[j]? = some a) :
    ∃ l₁ l₂, l = l₁ ++ a :: l₂ ∧ l.eraseIdx j = l₁ ++ l₂ ∧ (∀ b, l.set j b = l₁ ++ b :: l₂) ∧
      l₁.length = j := by
  induction l generalizing j with
  | nil => simp at h
  | cons x l ih =>
      cases j with
      | zero =>
          simp only [getElem?_cons_zero, Option.some.injEq] at h
          subst h
          exact ⟨[], l, rfl, rfl, fun _ => rfl, rfl⟩
      | succ j =>
          simp only [getElem?_cons_succ] at h
          obtain ⟨l₁, l₂, rfl, he, hs, hl⟩ := ih h
          exact ⟨x :: l₁, l₂, rfl, by simp only [eraseIdx_cons_succ, he, cons_append],
            fun b => by simp only [set_cons_succ, hs, cons_append], by simp only [length_cons, hl]⟩

/-! ## Histories -/

/-- Every entry `x` of the history is in the relation `Q` with the entries before it. -/
def Past (Q : List ο → ο → Prop) (h : List ο) : Prop :=
  ∀ h₁ x h₂, h = h₁ ++ x :: h₂ → Q h₁ x

variable {Q Q' : List ο → ο → Prop} {h : List ο}

@[simp] theorem past_nil : Past Q [] := by
  intro h₁ x h₂ he
  simp at he

theorem past_cons {x : ο} : Past Q (x :: h) ↔ Q [] x ∧ Past (fun p => Q (x :: p)) h := by
  constructor
  · intro hp
    exact ⟨hp [] x h rfl, fun h₁ y h₂ he => hp (x :: h₁) y h₂ (by rw [he]; rfl)⟩
  · rintro ⟨hx, hp⟩ h₁ y h₂ he
    cases h₁ with
    | nil => cases he; exact hx
    | cons z h₁ => cases he; exact hp h₁ y h₂ rfl

/-- The step rule: the entries of a step are checked against the history before it. -/
theorem past_append {o : List ο} : Past Q (h ++ o) ↔ Past Q h ∧ Past (fun p => Q (h ++ p)) o := by
  induction h generalizing Q with
  | nil => simp
  | cons x h ih => simp only [cons_append, past_cons, ih, and_assoc]

/-- Entries about which `Q` says nothing keep the property. -/
theorem Past.of_forall (ho : ∀ x ∈ h, ∀ p, Q p x) : Past Q h := by
  rintro h₁ x h₂ rfl
  exact ho x (mem_append_right _ mem_cons_self) h₁

end List
