import AsioNetworking.Lib.Mealy
import Mathlib.Logic.Function.Basic

/-!
# Atomic objects

An object that many threads use as if each operation were one step: a thread calls an operation, the
operation takes its step at some later moment, and after that it returns with the result of the step.
What such an object does has a linearization, an order of the operations in which each one
gives its result alone, and which keeps to the order of calls and returns.
-/

/-- A sequential object. An operation with no result in a state has to wait there. -/
structure SeqObject (σ ω ρ : Type*) where
  apply : σ → ω → Option (σ × ρ)

namespace Atomic

variable {σ ω ρ ι : Type*}

/-! ## The machine -/

inductive Phase (ω ρ : Type*) where
  | idle
  | called (op : ω)
  /-- The operation has taken its step. -/
  | done (op : ω) (r : ρ)

structure State (σ ω ρ ι : Type*) where
  obj : σ
  phase : ι → Phase ω ρ

inductive Event (ω ι : Type*) where
  | call (i : ι) (op : ω)
  | commit (i : ι)
  | ret (i : ι)

inductive Action (ω ρ ι : Type*) where
  | call (i : ι) (op : ω)
  | commit (i : ι) (op : ω) (r : ρ)
  | ret (i : ι) (op : ω) (r : ρ)
  deriving DecidableEq

variable [DecidableEq ι]

def next (S : SeqObject σ ω ρ) (s : State σ ω ρ ι) :
    Event ω ι → Option (State σ ω ρ ι × List (Action ω ρ ι))
  | .call i op =>
      match s.phase i with
      | .idle => some (⟨s.obj, Function.update s.phase i (.called op)⟩, [.call i op])
      | _ => none
  | .commit i =>
      match s.phase i with
      | .called op =>
          match S.apply s.obj op with
          | none => none
          | some (obj, r) =>
              some (⟨obj, Function.update s.phase i (.done op r)⟩, [.commit i op r])
      | _ => none
  | .ret i =>
      match s.phase i with
      | .done op r => some (⟨s.obj, Function.update s.phase i .idle⟩, [.ret i op r])
      | _ => none

def machine (S : SeqObject σ ω ρ) (ι : Type*) [DecidableEq ι] :
    Mealy (State σ ω ρ ι) (Event ω ι) (Action ω ρ ι) := ⟨next S⟩

def start (obj : σ) : State σ ω ρ ι := ⟨obj, fun _ => .idle⟩

/-! ## Histories -/

/-- What the threads see. -/
def visible (h : List (Action ω ρ ι)) : List (Action ω ρ ι) :=
  h.filter fun
    | .commit _ _ _ => false
    | _ => true

def calls (i : ι) (h : List (Action ω ρ ι)) : List ω :=
  h.filterMap fun
    | .call j op => if j = i then some op else none
    | _ => none

def rets (i : ι) (h : List (Action ω ρ ι)) : List (ω × ρ) :=
  h.filterMap fun
    | .ret j op r => if j = i then some (op, r) else none
    | _ => none

omit [DecidableEq ι] in
/-- The steps of the operations, in the order in which they were taken. -/
def commits (h : List (Action ω ρ ι)) : List (ι × ω × ρ) :=
  h.filterMap fun
    | .commit i op r => some (i, op, r)
    | _ => none

/-- The operations of one thread. -/
def opsOf (i : ι) (l : List (ι × ω × ρ)) : List (ω × ρ) :=
  l.filterMap fun x => if x.1 = i then some x.2 else none

/-- The operations one after the other, from `obj` to `obj'`, each with the result that it has. -/
def Legal (S : SeqObject σ ω ρ) : σ → List (ι × ω × ρ) → σ → Prop
  | obj, [], obj' => obj' = obj
  | obj, (_, op, r) :: l, obj' => ∃ obj₁, S.apply obj op = some (obj₁, r) ∧ Legal S obj₁ l obj'

section

variable (i : ι) (h o : List (Action ω ρ ι))

omit [DecidableEq ι] in
@[simp] theorem visible_append : visible (h ++ o) = visible h ++ visible o := List.filter_append ..

@[simp] theorem calls_append : calls i (h ++ o) = calls i h ++ calls i o := List.filterMap_append

@[simp] theorem rets_append : rets i (h ++ o) = rets i h ++ rets i o := List.filterMap_append

omit [DecidableEq ι] in
@[simp] theorem commits_append : commits (h ++ o) = commits h ++ commits o := List.filterMap_append

@[simp] theorem opsOf_append (l l' : List (ι × ω × ρ)) : opsOf i (l ++ l') = opsOf i l ++ opsOf i l' :=
  List.filterMap_append

theorem calls_visible : calls i (visible h) = calls i h := by
  rw [calls, visible, List.filterMap_filter]
  congr 1
  funext x
  cases x <;> rfl

theorem rets_visible : rets i (visible h) = rets i h := by
  rw [rets, visible, List.filterMap_filter]
  congr 1
  funext x
  cases x <;> rfl

end

omit [DecidableEq ι] in
theorem Legal.concat {S : SeqObject σ ω ρ} {obj obj' obj'' : σ} {l : List (ι × ω × ρ)} {i op r}
    (hl : Legal S obj l obj') (ha : S.apply obj' op = some (obj'', r)) :
    Legal S obj (l ++ [(i, op, r)]) obj'' := by
  induction l generalizing obj with
  | nil =>
      cases hl
      exact ⟨obj'', ha, rfl⟩
  | cons x l ih =>
      obtain ⟨obj₁, hx, hl⟩ := hl
      exact ⟨obj₁, hx, ih hl⟩

/-! ## Steps -/

variable {S : SeqObject σ ω ρ} {s s' : State σ ω ρ ι} {h o : List (Action ω ρ ι)} {obj : σ}

inductive Step (S : SeqObject σ ω ρ) (s : State σ ω ρ ι) :
    State σ ω ρ ι → List (Action ω ρ ι) → Prop where
  | call (i op) : s.phase i = .idle →
      Step S s ⟨s.obj, Function.update s.phase i (.called op)⟩ [.call i op]
  | commit (i op obj r) : s.phase i = .called op → S.apply s.obj op = some (obj, r) →
      Step S s ⟨obj, Function.update s.phase i (.done op r)⟩ [.commit i op r]
  | ret (i op r) : s.phase i = .done op r →
      Step S s ⟨s.obj, Function.update s.phase i .idle⟩ [.ret i op r]

theorem next_step {e} (hn : (machine S ι).next s e = some (s', o)) : Step S s s' o := by
  cases e with
  | call i op =>
      simp only [machine, next] at hn
      split at hn <;> cases hn
      exact .call i op (by assumption)
  | commit i =>
      simp only [machine, next] at hn
      split at hn
      · rename_i op hp
        split at hn <;> cases hn
        exact .commit i op _ _ hp (by assumption)
      · cases hn
  | ret i =>
      simp only [machine, next] at hn
      split at hn <;> cases hn
      exact .ret i _ _ (by assumption)

/-- What a thread has called, taken the step of, and returned from. -/
def Agrees (h : List (Action ω ρ ι)) (i : ι) : Phase ω ρ → Prop
  | .idle => opsOf i (commits h) = rets i h ∧ calls i h = (rets i h).map (·.1)
  | .called op => opsOf i (commits h) = rets i h ∧ calls i h = (rets i h).map (·.1) ++ [op]
  | .done op r => opsOf i (commits h) = rets i h ++ [(op, r)] ∧
      calls i h = (rets i h).map (·.1) ++ [op]

/-- For each thread: the operations that have returned in `h` are the first of its operations in
`l`, with their results, and those in `l` are the first that it has called in `h`. -/
def Fits (l : List (ι × ω × ρ)) (h : List (Action ω ρ ι)) : Prop :=
  ∀ i, rets i h <+: opsOf i l ∧ (opsOf i l).map (·.1) <+: calls i h

theorem fits_of_agrees {p : ι → Phase ω ρ} (ha : ∀ i, Agrees h i (p i)) : Fits (commits h) h := by
  intro i
  have hi := ha i
  cases hp : p i with
  | idle =>
      rw [hp] at hi
      obtain ⟨ho, hc⟩ := hi
      rw [ho, hc]
      exact ⟨List.prefix_rfl, List.prefix_rfl⟩
  | called op =>
      rw [hp] at hi
      obtain ⟨ho, hc⟩ := hi
      rw [ho, hc]
      exact ⟨List.prefix_rfl, List.prefix_append _ _⟩
  | done op r =>
      rw [hp] at hi
      obtain ⟨ho, hc⟩ := hi
      rw [ho, hc, List.map_append]
      exact ⟨List.prefix_append _ _, List.prefix_rfl⟩

/-- What another thread does is nothing to the thread `j`. -/
theorem Agrees.other {j : ι} {p : Phase ω ρ} (ha : Agrees h j p) (hc : calls j o = [])
    (hr : rets j o = []) (ho : opsOf j (commits o) = []) : Agrees (h ++ o) j p := by
  cases p <;> simpa [Agrees, hc, hr, ho] using ha

structure Inv (S : SeqObject σ ω ρ) (obj : σ) (s : State σ ω ρ ι) (h : List (Action ω ρ ι)) :
    Prop where
  legal : Legal S obj (commits h) s.obj
  agrees : ∀ i, Agrees h i (s.phase i)
  fits : ∀ h₁, h₁ <+: h → Fits (commits h₁) h₁

theorem Inv.step (hi : Inv S obj s h) (hs : Step S s s' o) : Inv S obj s' (h ++ o) := by
  have fits {x} (hagrees : ∀ i, Agrees (h ++ [x]) i (s'.phase i)) :
      ∀ h₁, h₁ <+: h ++ [x] → Fits (commits h₁) h₁ := by
    intro h₁ hp
    rcases List.prefix_concat_iff.mp hp with rfl | hp
    · exact fits_of_agrees hagrees
    · exact hi.fits h₁ hp
  cases hs with
  | call i op hp =>
      have hagrees : ∀ j, Agrees (h ++ [.call i op]) j (Function.update s.phase i (.called op) j) := by
        intro j
        by_cases hij : j = i
        · subst hij
          have ha := hi.agrees j
          rw [hp] at ha
          simpa [Agrees, calls, rets, commits, opsOf] using ha
        · rw [Function.update_of_ne hij]
          exact (hi.agrees j).other (by simp [calls, Ne.symm hij]) rfl rfl
      exact ⟨by simpa [commits] using hi.legal, hagrees, fits hagrees⟩
  | commit i op obj' r hp ha =>
      have hagrees : ∀ j, Agrees (h ++ [.commit i op r]) j
          (Function.update s.phase i (.done op r) j) := by
        intro j
        by_cases hij : j = i
        · subst hij
          have ha := hi.agrees j
          rw [hp] at ha
          simpa [Agrees, calls, rets, commits, opsOf] using ha
        · rw [Function.update_of_ne hij]
          exact (hi.agrees j).other rfl rfl (by simp [commits, opsOf, Ne.symm hij])
      refine ⟨?_, hagrees, fits hagrees⟩
      rw [commits_append]
      exact hi.legal.concat ha
  | ret i op r hp =>
      have hagrees : ∀ j, Agrees (h ++ [.ret i op r]) j (Function.update s.phase i .idle j) := by
        intro j
        by_cases hij : j = i
        · subst hij
          have ha := hi.agrees j
          rw [hp] at ha
          simpa [Agrees, calls, rets, commits, opsOf] using ha
        · rw [Function.update_of_ne hij]
          exact (hi.agrees j).other rfl (by simp [rets, Ne.symm hij]) rfl
      exact ⟨by simpa [commits] using hi.legal, hagrees, fits hagrees⟩

theorem run_inv (hr : (machine S ι).Run Mealy.free (start obj) [] s h) : Inv S obj s h := by
  refine hr.invariant (P := fun s h => Inv S obj s h) ⟨rfl, fun _ => ⟨rfl, rfl⟩, fun h₁ hp => ?_⟩
    fun _ _ _ _ _ hi _ hn => hi.step (next_step hn)
  rw [List.prefix_nil.mp hp]
  exact fun _ => ⟨List.prefix_rfl, List.prefix_rfl⟩

/-! ## Linearizability -/

/-- Some order of the operations is legal for the object and fits the history. It keeps to the
order of the calls and returns: when a part `h₁` of the history is over, some first operations of the
order fit it, so that what has returned comes before what is called later. -/
def Linearizable (S : SeqObject σ ω ρ) (obj obj' : σ) (h : List (Action ω ρ ι)) : Prop :=
  ∃ l, Legal S obj l obj' ∧ Fits l h ∧ ∀ h₁, h₁ <+: h → ∃ l₁, l₁ <+: l ∧ Fits l₁ h₁

theorem linearizable_of_run (hr : (machine S ι).Run Mealy.free (start obj) [] s h) :
    Linearizable S obj s.obj (visible h) := by
  have hi := run_inv hr
  have seen {h'} (hp : h' <+: h) : Fits (commits h') (visible h') := by
    intro i
    rw [rets_visible, calls_visible]
    exact hi.fits h' hp i
  refine ⟨commits h, hi.legal, seen List.prefix_rfl, fun h₁ hp => ?_⟩
  obtain ⟨h', hp', rfl⟩ := List.prefix_filter_iff.mp hp
  exact ⟨commits h', hp'.filterMap _, seen hp'⟩

end Atomic
