import Mathlib.Data.List.Basic

/-!
# Machines with outputs

A machine takes an event in a state and either refuses it or answers with the next state and the
outputs of the step. A history is the list of all outputs so far. `Run G` relates the states and
histories that a machine reaches when every step meets the guard `G`; `exec` computes them.
-/

/-- A deterministic labelled machine: `next s e = none` when the event `e` cannot happen in `s`. -/
structure Mealy (σ ε ο : Type*) where
  next : σ → ε → Option (σ × List ο)

namespace Mealy

variable {σ ε ο : Type*} {M : Mealy σ ε ο}

/-- The guard that allows every step. -/
abbrev free : σ → List ο → ε → Prop := fun _ _ _ => True

/-- From `s₀` with history `h₀`, steps that meet `G` lead to `s` with history `h`. -/
inductive Run (M : Mealy σ ε ο) (G : σ → List ο → ε → Prop) (s₀ : σ) (h₀ : List ο) :
    σ → List ο → Prop where
  | refl : Run M G s₀ h₀ s₀ h₀
  | step {s h e s' o} : Run M G s₀ h₀ s h → G s h e → M.next s e = some (s', o) →
      Run M G s₀ h₀ s' (h ++ o)

/-- The machine that refuses the events that do not meet `C`. -/
def restrict (M : Mealy σ ε ο) (C : σ → ε → Prop) [∀ s e, Decidable (C s e)] : Mealy σ ε ο :=
  ⟨fun s e => if C s e then M.next s e else none⟩

theorem restrict_eq_some {C : σ → ε → Prop} [∀ s e, Decidable (C s e)] {s e r}
    (h : (M.restrict C).next s e = some r) : C s e ∧ M.next s e = some r := by
  simp only [restrict] at h
  split at h
  · rename_i hc
    exact ⟨hc, h⟩
  · cases h

/-! ## Runs -/

/-- The invariant rule: what holds at the start and is kept by every step that meets the guard
holds in every state reached. -/
theorem Run.invariant {G : σ → List ο → ε → Prop} {P : σ → List ο → Prop} {s₀ h₀ s h}
    (hr : M.Run G s₀ h₀ s h) (h0 : P s₀ h₀)
    (hs : ∀ s h e s' o, P s h → G s h e → M.next s e = some (s', o) → P s' (h ++ o)) : P s h := by
  induction hr with
  | refl => exact h0
  | step _ hg hn ih => exact hs _ _ _ _ _ ih hg hn

theorem Run.trans {G : σ → List ο → ε → Prop} {s₀ h₀ s₁ h₁ s h} (h₁₀ : M.Run G s₀ h₀ s₁ h₁)
    (hr : M.Run G s₁ h₁ s h) : M.Run G s₀ h₀ s h := by
  induction hr with
  | refl => exact h₁₀
  | step _ hg hn ih => exact .step ih hg hn

/-- The strengthening rule: a guard that holds of every step which a run may take next may be added. -/
theorem Run.strengthen {G G' : σ → List ο → ε → Prop} {s₀ h₀ s h} (hr : M.Run G s₀ h₀ s h)
    (hG : ∀ s h e, M.Run G s₀ h₀ s h → G s h e → G' s h e) : M.Run G' s₀ h₀ s h := by
  induction hr with
  | refl => exact .refl
  | step hr hg hn ih => exact .step ih (hG _ _ _ hr hg) hn

theorem Run.mono {G G' : σ → List ο → ε → Prop} {s₀ h₀ s h} (hr : M.Run G s₀ h₀ s h)
    (hG : ∀ s h e, G s h e → G' s h e) : M.Run G' s₀ h₀ s h :=
  hr.strengthen fun s h e _ hg => hG s h e hg

/-- The projection rule: where each step of `M`, seen through `f` and `g`, is a step of `N` that
meets `G'` or no step at all, a run of `M` is a run of `N`. -/
theorem Run.project {σ' ε' ο' : Type*} {N : Mealy σ' ε' ο'} {G : σ → List ο → ε → Prop}
    {G' : σ' → List ο' → ε' → Prop} (f : σ → σ') (g : List ο → List ο')
    (hg : ∀ h o, g (h ++ o) = g h ++ g o) {s₀ h₀ s h} (hr : M.Run G s₀ h₀ s h)
    (hs : ∀ s h e s' o, G s h e → M.next s e = some (s', o) → (f s' = f s ∧ g o = []) ∨
      ∃ e', G' (f s) (g h) e' ∧ N.next (f s) e' = some (f s', g o)) :
    N.Run G' (f s₀) (g h₀) (f s) (g h) := by
  induction hr with
  | refl => exact .refl
  | step _ hG hn ih =>
      rw [hg]
      rcases hs _ _ _ _ _ hG hn with ⟨hf, ho⟩ | ⟨e', hG', hn'⟩
      · rw [hf, ho, List.append_nil]; exact ih
      · exact .step ih hG' hn'

/-- The refinement rule: where each step of `M`, seen through `f`, is no step of `N` and has no
outputs, or is a step of `N` with the same outputs but for those that `g` hides, each history of
`M` is one of `N` without what is hidden. -/
theorem Run.refine {σ' ε' ο' : Type*} {N : Mealy σ' ε' ο'} {G : σ → List ο → ε → Prop} (f : σ → σ')
    (g : List ο' → List ο) (hg : ∀ h o, g (h ++ o) = g h ++ g o) {s₀ s h} (hr : M.Run G s₀ [] s h)
    (hs : ∀ s h e s' o, M.Run G s₀ [] s h → G s h e → M.next s e = some (s', o) →
      (f s' = f s ∧ o = []) ∨ ∃ e' o', N.next (f s) e' = some (f s', o') ∧ g o' = o) :
    ∃ h', N.Run free (f s₀) [] (f s) h' ∧ g h' = h := by
  induction hr with
  | refl =>
      have hnil := hg [] []
      rw [List.append_nil, List.self_eq_append_right] at hnil
      exact ⟨[], .refl, hnil⟩
  | @step s h e s' o hr hG hn ih =>
      obtain ⟨h', hr', rfl⟩ := ih
      rcases hs _ _ _ _ _ hr hG hn with ⟨hf, rfl⟩ | ⟨e', o', hn', rfl⟩
      · exact ⟨h', hf ▸ hr', (List.append_nil _).symm⟩
      · exact ⟨h' ++ o', .step hr' trivial hn', hg h' o'⟩

/-! ## Observers -/

section Observe

variable {α : Type*} {f : σ → ε → List ο → List α}

end Observe

/-! ## Computed runs -/

/-- Takes the events one after the other; `none` when one is refused or does not meet `G`. -/
def exec (M : Mealy σ ε ο) (G : σ → List ο → ε → Prop) [∀ s h e, Decidable (G s h e)] :
    σ → List ο → List ε → Option (σ × List ο)
  | s, h, [] => some (s, h)
  | s, h, e :: es =>
      if G s h e then
        match M.next s e with
        | none => none
        | some (s', o) => exec M G s' (h ++ o) es
      else none

theorem Run.of_exec {G : σ → List ο → ε → Prop} [∀ s h e, Decidable (G s h e)] (es : List ε)
    {s₀ h₀ s h} (he : M.exec G s₀ h₀ es = some (s, h)) : M.Run G s₀ h₀ s h := by
  induction es generalizing s₀ h₀ with
  | nil => cases he; exact .refl
  | cons e es ih =>
      simp only [exec] at he
      split at he
      · rename_i hg
        split at he
        · cases he
        · rename_i s' o hn
          exact Run.trans (.step .refl hg hn) (ih he)
      · cases he

theorem Run.of_isSome {G : σ → List ο → ε → Prop} [∀ s h e, Decidable (G s h e)] (es : List ε)
    {s₀ h₀} (he : (M.exec G s₀ h₀ es).isSome) :
    M.Run G s₀ h₀ ((M.exec G s₀ h₀ es).get he).1 ((M.exec G s₀ h₀ es).get he).2 :=
  .of_exec es (Option.some_get he).symm

theorem exec_append {G : σ → List ο → ε → Prop} [∀ s h e, Decidable (G s h e)] (es es' : List ε)
    (s : σ) (h : List ο) :
    M.exec G s h (es ++ es') = (M.exec G s h es).bind fun r => M.exec G r.1 r.2 es' := by
  induction es generalizing s h with
  | nil => rfl
  | cons e es ih =>
      simp only [List.cons_append, exec]
      split
      · cases M.next s e with
        | none => rfl
        | some r => exact ih r.1 (h ++ r.2)
      · rfl

/-- The simulation rule: where each step of `N` is matched by a step of `M` with the same outputs
between related states, `M` takes the events that `N` takes, with the same outputs. -/
theorem exec_simulates {σ' : Type*} {N : Mealy σ' ε ο} {R : σ' → σ → Prop}
    (hs : ∀ t s e t' o, R t s → N.next t e = some (t', o) → ∃ s', M.next s e = some (s', o) ∧ R t' s')
    (es : List ε) {t s h t' h'} (hR : R t s) (he : N.exec free t h es = some (t', h')) :
    ∃ s', M.exec free s h es = some (s', h') ∧ R t' s' := by
  induction es generalizing t s h with
  | nil => cases he; exact ⟨s, rfl, hR⟩
  | cons e es ih =>
      simp only [exec, if_true] at he ⊢
      split at he
      · cases he
      · rename_i t₁ o hn
        obtain ⟨s₁, hm, hR₁⟩ := hs _ _ _ _ _ hR hn
        rw [hm]
        exact ih hR₁ he

/-- `P` holds in every state that the events `es` lead through. -/
def Always (M : Mealy σ ε ο) (P : σ → List ο → Prop) : σ → List ο → List ε → Prop
  | s, h, [] => P s h
  | s, h, e :: es => P s h ∧
      match M.next s e with
      | none => True
      | some (s', o) => Always M P s' (h ++ o) es

theorem Always.last {P : σ → List ο → Prop} (es : List ε) {s h s' h'} (ha : M.Always P s h es)
    (he : M.exec free s h es = some (s', h')) : P s' h' := by
  induction es generalizing s h with
  | nil => cases he; exact ha
  | cons e es ih =>
      simp only [exec, if_true] at he
      obtain ⟨-, ha⟩ := ha
      split at he
      · cases he
      · rename_i s₁ o hn
        rw [hn] at ha
        exact ih ha he

theorem Always.of_isSome {P : σ → List ο → Prop} (es : List ε) {s h} (ha : M.Always P s h es)
    (he : (M.exec free s h es).isSome) :
    P ((M.exec free s h es).get he).1 ((M.exec free s h es).get he).2 :=
  ha.last es (Option.some_get he).symm

/-- Every step of the run that the events `es` lead through meets `G`. -/
def Along (M : Mealy σ ε ο) (G : σ → List ο → ε → Prop) : σ → List ο → List ε → Prop
  | _, _, [] => True
  | s, h, e :: es =>
      match M.next s e with
      | none => True
      | some (s', o) => G s h e ∧ Along M G s' (h ++ o) es

/-- Where the steps from a `P`-state that lead to a `P`-state are exactly those that meet `G`, a
run stays in `P` if and only if all its steps meet `G`. The invariant `I` may be used on the way. -/
theorem always_iff_along {I P : σ → List ο → Prop} {G : σ → List ο → ε → Prop}
    (hI : ∀ s h e s' o, I s h → M.next s e = some (s', o) → I s' (h ++ o))
    (hP : ∀ s h e s' o, I s h → P s h → M.next s e = some (s', o) → (P s' (h ++ o) ↔ G s h e))
    (es : List ε) : ∀ {s h}, I s h → P s h → (M.Always P s h es ↔ M.Along G s h es) := by
  induction es with
  | nil => intro s h _ hp; simp only [Always, Along, hp]
  | cons e es ih =>
      intro s h hi hp
      simp only [Always, Along, hp, true_and]
      cases hn : M.next s e with
      | none => simp
      | some r =>
          obtain ⟨s', o⟩ := r
          have hi' := hI _ _ _ _ _ hi hn
          have hiff := hP _ _ _ _ _ hi hp hn
          simp only
          constructor
          · intro ha
            have hp' : P s' (h ++ o) := by
              cases es with
              | nil => exact ha
              | cons _ _ => exact ha.1
            exact ⟨hiff.mp hp', (ih hi' hp').mp ha⟩
          · rintro ⟨hg, ha⟩
            exact (ih hi' (hiff.mpr hg)).mpr ha

end Mealy
