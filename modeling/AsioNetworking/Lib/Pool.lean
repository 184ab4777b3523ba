import AsioNetworking.Lib.Lists
import AsioNetworking.Lib.Mealy

/-!
# Pools of machines

A pool is a list of machines of one kind. A new member comes to its end, in a start state that depends
on a parameter; any other step is a step of one member. No member can tell what the others do.
-/

inductive PoolEvent (α ε : Type*) where
  | spawn (a : α)
  | member (k : Nat) (e : ε)
  deriving DecidableEq

inductive PoolEffect (α ο : Type*) where
  | spawned (a : α)
  | member (k : Nat) (x : ο)
  deriving DecidableEq

namespace Mealy

variable {σ ε ο α : Type*}

/-- The pool of the machines `M`, whose members start at `start`. -/
def pool (M : Mealy σ ε ο) (start : α → σ × List ο) :
    Mealy (List σ) (PoolEvent α ε) (PoolEffect α ο) where
  next
    | l, .spawn a =>
        some (l ++ [(start a).1], .spawned a :: (start a).2.map (.member l.length))
    | l, .member k e =>
        match l[k]? with
        | none => none
        | some s => (M.next s e).map fun r => (l.set k r.1, r.2.map (.member k))

/-- The parameters of the members, in the order of their start. -/
def spawned (h : List (PoolEffect α ο)) : List α :=
  h.filterMap fun
    | .spawned a => some a
    | _ => none

/-- The history of the `k`-th member. -/
def memberHist (k : Nat) (h : List (PoolEffect α ο)) : List ο :=
  h.filterMap fun
    | .member j x => if j = k then some x else none
    | _ => none

section Histories

variable (j k : Nat) (h o : List (PoolEffect α ο))

@[simp] theorem spawned_append : spawned (h ++ o) = spawned h ++ spawned o := List.filterMap_append

@[simp] theorem memberHist_append : memberHist k (h ++ o) = memberHist k h ++ memberHist k o :=
  List.filterMap_append

@[simp] theorem spawned_map_member (o : List ο) :
    spawned (o.map (PoolEffect.member (α := α) k)) = [] := by
  simp [spawned, List.filterMap_map]

@[simp] theorem memberHist_map_member (o : List ο) :
    memberHist k (o.map (PoolEffect.member (α := α) j)) = if j = k then o else [] := by
  by_cases hjk : j = k <;> simp [memberHist, List.filterMap_map, hjk]

@[simp] theorem spawned_spawned (a : α) : spawned (.spawned a :: h) = a :: spawned h := rfl

@[simp] theorem memberHist_spawned (a : α) : memberHist k (.spawned a :: h) = memberHist k h := rfl

end Histories

variable {M : Mealy σ ε ο} {start : α → σ × List ο} {l l' : List σ} {h o : List (PoolEffect α ο)}

/-! ## Steps -/

inductive PoolStep (M : Mealy σ ε ο) (start : α → σ × List ο) (l : List σ) :
    PoolEvent α ε → List σ → List (PoolEffect α ο) → Prop where
  | spawn (a) : PoolStep M start l (.spawn a) (l ++ [(start a).1])
      (.spawned a :: (start a).2.map (.member l.length))
  | member (k e s s' o) : l[k]? = some s → M.next s e = some (s', o) →
      PoolStep M start l (.member k e) (l.set k s') (o.map (.member k))

theorem pool_step {e} (hn : (M.pool start).next l e = some (l', o)) : PoolStep M start l e l' o := by
  cases e with
  | spawn a => cases hn; exact .spawn a
  | member k e =>
      simp only [pool] at hn
      split at hn
      · cases hn
      · rename_i s hs
        obtain ⟨⟨s', o'⟩, hm, he⟩ := Option.map_eq_some_iff.mp hn
        cases he
        exact .member k e s s' o' hs hm

/-! ## Members -/

/-- The member at `k` has a run of its own, from the start that its parameter gives. -/
def Lives (M : Mealy σ ε ο) (start : α → σ × List ο) (k : Nat) (s : σ) (h : List (PoolEffect α ο)) :
    Prop :=
  ∃ a, (spawned h)[k]? = some a ∧ M.Run free (start a).1 (start a).2 s (memberHist k h)

structure PoolInv (M : Mealy σ ε ο) (start : α → σ × List ο) (l : List σ)
    (h : List (PoolEffect α ο)) : Prop where
  length : (spawned h).length = l.length
  unborn : ∀ k, l.length ≤ k → memberHist k h = []
  lives : ∀ k s, l[k]? = some s → Lives M start k s h

theorem PoolInv.step {e} (hi : PoolInv M start l h) (hs : PoolStep M start l e l' o) :
    PoolInv M start l' (h ++ o) := by
  cases hs with
  | spawn a =>
      refine ⟨by simp [hi.length], fun k hk => ?_, fun k s hk => ?_⟩
      · rw [List.length_append, List.length_singleton] at hk
        have hne : l.length ≠ k := by omega
        simp [hi.unborn k (by omega), hne]
      · rcases Nat.lt_or_ge k l.length with hlt | hge
        · rw [List.getElem?_append_left hlt] at hk
          obtain ⟨b, hb, hr⟩ := hi.lives k s hk
          refine ⟨b, ?_, ?_⟩
          · rw [spawned_append, List.getElem?_append_left (hi.length ▸ hlt)]
            exact hb
          · simpa [Nat.ne_of_gt hlt] using hr
        · -- the new member
          have hlast := (List.getElem?_eq_some_iff.mp hk).1
          rw [List.length_append, List.length_singleton] at hlast
          obtain rfl : k = l.length := by omega
          rw [List.getElem?_concat_length, Option.some.injEq] at hk
          subst hk
          refine ⟨a, by simp [← hi.length], ?_⟩
          simpa [hi.unborn _ (Nat.le_refl _)] using Run.refl
  | member j e s₁ s₂ o hj hm =>
      refine ⟨by simp [hi.length], fun k hk => ?_, fun k s hk => ?_⟩
      · rw [List.length_set] at hk
        have hlt := (List.getElem?_eq_some_iff.mp hj).1
        have hne : j ≠ k := by omega
        simp [hi.unborn k hk, hne]
      · by_cases hjk : j = k
        · subst hjk
          obtain ⟨a, ha, hr⟩ := hi.lives j s₁ hj
          rw [List.getElem?_set_self (List.getElem?_eq_some_iff.mp hj).1, Option.some.injEq] at hk
          subst hk
          refine ⟨a, by simpa using ha, ?_⟩
          rw [memberHist_append, memberHist_map_member, if_pos rfl]
          exact .step hr trivial hm
        · rw [List.getElem?_set_ne hjk] at hk
          obtain ⟨a, ha, hr⟩ := hi.lives k s hk
          exact ⟨a, by simpa using ha, by simpa [hjk] using hr⟩

/-- The member rule: in a run of a pool every member has a run. -/
theorem Run.poolInv {G : List σ → List (PoolEffect α ο) → PoolEvent α ε → Prop}
    (hr : (M.pool start).Run G [] [] l h) : PoolInv M start l h :=
  hr.invariant ⟨rfl, fun _ _ => rfl, by simp⟩ fun _ _ _ _ _ hi _ hn => hi.step (pool_step hn)

/-- What holds at every start, and is kept by every step of a member, holds of all members. -/
theorem Run.pool_invariant {G : List σ → List (PoolEffect α ο) → PoolEvent α ε → Prop}
    {P : α → σ → List ο → Prop} (hr : (M.pool start).Run G [] [] l h)
    (h0 : ∀ a, P a (start a).1 (start a).2)
    (hs : ∀ a s h e s' o, P a s h → M.next s e = some (s', o) → P a s' (h ++ o)) {k : Nat} {s : σ}
    (hk : l[k]? = some s) : ∃ a, (spawned h)[k]? = some a ∧ P a s (memberHist k h) := by
  obtain ⟨a, ha, hm⟩ := hr.poolInv.lives k s hk
  exact ⟨a, ha, hm.invariant (h0 a) fun s h e s' o hp _ hn => hs a s h e s' o hp hn⟩

end Mealy
