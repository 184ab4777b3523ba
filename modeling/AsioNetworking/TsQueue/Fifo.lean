import AsioNetworking.Lib.Lists
import AsioNetworking.TsQueue.Linear

/-!
# Producers and consumers

What follows from the linearization for the ways in which the library uses its queues: threads that
push at the back and pop at the front, and a single thread that pops what it has seen to be there.
-/

namespace AsioNetworking

open List Atomic

variable {α ι : Type} [DecidableEq ι]

namespace QueueCall

/-- The calls of a queue whose items are pushed at the back and popped at the front. -/
def isFifo : QueueCall α → Bool
  | .push (.back _) | .popFront | .front | .back | .empty | .count | .wait => true
  | _ => false

/-- The item of a `push_back`. -/
def pushedBack : QueueCall α → Option α
  | .push (.back item) => some item
  | _ => none

/-- The item that a `pop_front` returned. -/
def poppedFront (x : QueueCall α × QueueRet α) : Option α :=
  match x with
  | (.popFront, .item item) => item
  | _ => none

/-- The call may take items away. -/
def takes : QueueCall α → Bool
  | .popFront | .popBack | .clear => true
  | _ => false

end QueueCall

namespace TsQueueCalls

open QueueCall

variable {s : TsQueueCalls α ι} {items items' : List α} {h : List (Action (QueueCall α) (QueueRet α) ι)}

/-! ## First in, first out -/

omit [DecidableEq ι] in
theorem legal_fifo {l : List (ι × QueueCall α × QueueRet α)} (hl : Legal (deque α) items l items')
    (hf : ∀ x ∈ l, isFifo x.2.1 = true) :
    items ++ l.filterMap (fun x => pushedBack x.2.1) =
      l.filterMap (fun x => poppedFront x.2) ++ items' := by
  induction l generalizing items with
  | nil =>
      cases hl
      simp
  | cons x l ih =>
      obtain ⟨i, call, r⟩ := x
      obtain ⟨items₁, ha, hl⟩ := hl
      have ih := ih hl fun x hx => hf x (mem_cons_of_mem _ hx)
      have hfifo : isFifo call = true := hf _ mem_cons_self
      cases call with
      | push push =>
          cases push with
          | back item =>
              cases ha
              simpa [pushedBack, poppedFront, Push.apply] using ih
          | front item => cases hfifo
      | popFront =>
          cases ha
          cases items with
          | nil => simpa [pushedBack, poppedFront] using ih
          | cons item items => simpa [pushedBack, poppedFront] using ih
      | wait =>
          simp only [deque] at ha
          split at ha <;> cases ha
          simpa [pushedBack, poppedFront] using ih
      | clear => cases hfifo
      | popBack => cases hfifo
      | _ =>
          cases ha
          simpa [pushedBack, poppedFront] using ih

theorem mem_opsOf {l : List (ι × QueueCall α × QueueRet α)} {x} (hx : x ∈ l) : x.2 ∈ opsOf x.1 l :=
  mem_filterMap.mpr ⟨x, hx, if_pos rfl⟩

theorem filterMap_opsOf {β : Type} (i : ι) (f : QueueCall α × QueueRet α → Option β)
    (l : List (ι × QueueCall α × QueueRet α)) :
    (opsOf i l).filterMap f = (l.filter (·.1 = i)).filterMap fun x => f x.2 := by
  induction l with
  | nil => rfl
  | cons x l ih =>
      by_cases hx : x.1 = i
      · simp only [opsOf, filterMap_cons, hx, if_true, filter_cons, decide_true] at ih ⊢
        rw [ih]
      · simpa [opsOf, hx] using ih

/-- Where all calls are those of a first-in-first-out queue: in some order of the operations, the
items that were there and those pushed are the items popped and those still there. Each consumer gets
the items of each producer in the order in which they were pushed, and none twice. -/
theorem fifo (hr : (machine α ι).Run Mealy.free (init items) [] s h)
    (hf : ∀ i, ∀ call ∈ calls i h, isFifo call = true) (owner : α → ι)
    (howner : ∀ i, ∀ item ∈ (calls i h).filterMap pushedBack, owner item = i) :
    ∃ l, Fits l h ∧
      items ++ l.filterMap (fun x => pushedBack x.2.1) =
        l.filterMap (fun x => poppedFront x.2) ++ s.queue.deqQueue ∧
      (items = [] → ∀ p c, ((rets c h).filterMap poppedFront).filter (owner · = p) <+
        (calls p h).filterMap pushedBack) := by
  obtain ⟨l, hlegal, hfits, -⟩ := linearizable hr
  have called {x} (hx : x ∈ l) : x.2.1 ∈ calls x.1 h :=
    (hfits x.1).2.subset (mem_map.mpr ⟨x.2, mem_opsOf hx, rfl⟩)
  have horder := legal_fifo hlegal fun x hx => hf x.1 x.2.1 (called hx)
  refine ⟨l, hfits, horder, ?_⟩
  rintro rfl p c
  -- the items of the producer are those that it pushed
  have hpushed : (l.filterMap fun x => pushedBack x.2.1).filter (owner · = p) =
      (opsOf p l).filterMap fun x => pushedBack x.1 := by
    rw [filterMap_opsOf, filter_filterMap, filterMap_filter]
    refine filterMap_congr fun x hx => ?_
    cases hitem : pushedBack x.2.1 with
    | none => by_cases hxp : x.1 = p <;> simp [hxp]
    | some item =>
        have hmem : item ∈ (calls x.1 h).filterMap pushedBack :=
          mem_filterMap.mpr ⟨x.2.1, called hx, hitem⟩
        rw [Option.filter_some, howner x.1 item hmem]
  have hpops : (rets c h).filterMap poppedFront <+ l.filterMap fun x => poppedFront x.2 := by
    refine ((hfits c).1.filterMap poppedFront).sublist.trans ?_
    rw [filterMap_opsOf]
    exact filter_sublist.filterMap _
  have hpre : (l.filterMap fun x => poppedFront x.2) <+: l.filterMap fun x => pushedBack x.2.1 :=
    ⟨_, by simpa using horder.symm⟩
  have hcalls : ((opsOf p l).filterMap fun x => pushedBack x.1) <+: (calls p h).filterMap pushedBack := by
    have hmap := (hfits p).2.filterMap pushedBack
    rwa [filterMap_map] at hmap
  exact (hpops.filter _).trans (((hpre.filter _).sublist.trans (hpushed ▸ Sublist.refl _)).trans
    hcalls.sublist)

/-- `true` pushes an item while `false` pops the one that was there. -/
def crossing : TsQueueCalls Nat Bool × List (Action (QueueCall Nat) (QueueRet Nat) Bool) :=
  ((machine Nat Bool).exec Mealy.free (init []) []
    [.call true (.push (.back 5)), .step true, .step true, .step true, .notify true none,
      .call false .popFront, .step true, .step true, .call true (.push (.back 7)), .step false,
      .step false, .step false, .step true, .step true]).get (by decide +kernel)

theorem fifo_crossing : ∃ l, Fits l crossing.2 ∧
    [] ++ l.filterMap (fun x => pushedBack x.2.1) =
      l.filterMap (fun x => poppedFront x.2) ++ crossing.1.queue.deqQueue ∧
    (([] : List Nat) = [] → ∀ p c,
      ((rets c crossing.2).filterMap poppedFront).filter (fun n => decide (5 ≤ n) = p) <+
        (calls p crossing.2).filterMap pushedBack) :=
  fifo (.of_isSome _ _ : (machine Nat Bool).Run Mealy.free (init []) [] crossing.1 crossing.2)
    (by decide +kernel) (fun n => decide (5 ≤ n)) (by decide +kernel)

/-! ## A single consumer -/

/-- Only the thread `c` takes items away: it calls `pop_front` when its last call was an `empty` that
returned `false`. -/
def Tested (c : ι) (past : List (Action (QueueCall α) (QueueRet α) ι)) :
    Action (QueueCall α) (QueueRet α) ι → Prop
  | .call i call => takes call = true → i = c ∧ call = .popFront ∧
      (rets c past).getLast? = some (.empty, .isEmpty false)
  | _ => True

/-- What the consumer knows of the deque when it has got so far. -/
def Knows (last : Option (QueueCall α × QueueRet α)) (items : List α) :
    Phase (QueueCall α) (QueueRet α) → Prop
  | .idle => last = some (.empty, .isEmpty false) → items ≠ []
  | .called call => call = .popFront → items ≠ []
  | .done call r => (call = .empty → r = .isEmpty false → items ≠ []) ∧
      (call = .popFront → r ≠ .item none)

/-- A call that takes items away is the `pop_front` of the consumer. -/
def Takes (c i : ι) : Phase (QueueCall α) (QueueRet α) → Prop
  | .idle => True
  | .called call | .done call _ => takes call = true → i = c ∧ call = .popFront

structure ConsumerInv (c : ι) (s : Atomic.State (List α) (QueueCall α) (QueueRet α) ι)
    (h : List (Action (QueueCall α) (QueueRet α) ι)) : Prop where
  takes : ∀ i, Takes c i (s.phase i)
  knows : Knows (rets c h).getLast? s.obj (s.phase c)
  found : ∀ i, .ret i .popFront (.item none) ∉ h

omit [DecidableEq ι] in
/-- An operation that takes nothing away leaves a deque that is not empty so. -/
theorem apply_ne_nil {call : QueueCall α} {r} (ha : (deque α).apply items call = some (items', r))
    (hc : takes call = false) (hne : items ≠ []) : items' ≠ [] := by
  cases call with
  | push push =>
      cases ha
      cases push <;> simp [Push.apply]
  | wait =>
      simp only [deque] at ha
      split at ha <;> cases ha
      exact hne
  | clear => cases hc
  | popFront => cases hc
  | popBack => cases hc
  | _ => cases ha; exact hne

theorem Knows.mono {last} {p : Phase (QueueCall α) (QueueRet α)} (hk : Knows last items p)
    (hne : items ≠ [] → items' ≠ []) : Knows last items' p := by
  cases p with
  | idle => exact fun hl => hne (hk hl)
  | called call => exact fun hc => hne (hk hc)
  | done call r => exact ⟨fun hc hr => hne (hk.1 hc hr), hk.2⟩

theorem ConsumerInv.step {c : ι} {a a' : Atomic.State (List α) (QueueCall α) (QueueRet α) ι} {o}
    (hi : ConsumerInv c a h) (ht : Past (fun past => Tested c (visible h ++ past)) (visible o))
    (hs : Atomic.Step (deque α) a a' o) : ConsumerInv c a' (h ++ o) := by
  have hother {i : ι} {p} (hp : Takes c i p) : ∀ j, Takes c j (Function.update a.phase i p j) := by
    intro j
    by_cases hij : j = i
    · subst hij
      rwa [Function.update_self]
    · rw [Function.update_of_ne hij]
      exact hi.takes j
  cases hs with
  | call i call hp =>
      have htest : Tested c (visible h ++ []) (.call i call) := ht [] (.call i call) [] rfl
      rw [append_nil, Tested, rets_visible] at htest
      refine ⟨hother fun hc => ⟨(htest hc).1, (htest hc).2.1⟩, ?_, fun j hj => ?_⟩
      · have hr : rets c (h ++ [.call i call]) = rets c h := by simp [rets]
        show Knows _ a.obj (Function.update a.phase i (.called call) c)
        rw [hr]
        by_cases hci : c = i
        · subst hci
          rw [Function.update_self]
          rintro rfl
          have hk := hi.knows
          rw [hp] at hk
          exact hk (htest rfl).2.2
        · rw [Function.update_of_ne hci]
          exact hi.knows
      · rcases mem_append.mp hj with hj | hj
        · exact hi.found j hj
        · simp at hj
  | commit i call items' r hp ha =>
      have htakes := hi.takes i
      rw [hp] at htakes
      refine ⟨hother htakes, ?_, fun j hj => ?_⟩
      · have hr : rets c (h ++ [.commit i call r]) = rets c h := by simp [rets]
        have hk := hi.knows
        show Knows _ items' (Function.update a.phase i (.done call r) c)
        rw [hr]
        by_cases hci : c = i
        · subst hci
          rw [hp] at hk
          rw [Function.update_self]
          refine ⟨?_, ?_⟩
          · rintro rfl rfl
            simp only [deque, Option.some.injEq, Prod.mk.injEq, QueueRet.isEmpty.injEq] at ha
            obtain ⟨rfl, he⟩ := ha
            simpa using he
          · rintro rfl
            simp only [deque, Option.some.injEq, Prod.mk.injEq] at ha
            obtain ⟨-, rfl⟩ := ha
            simpa using hk rfl
        · rw [Function.update_of_ne hci]
          refine hk.mono (apply_ne_nil ha ?_)
          by_contra hc
          exact hci (htakes (by simpa using hc)).1.symm
      · rcases mem_append.mp hj with hj | hj
        · exact hi.found j hj
        · simp at hj
  | ret i call r hp =>
      refine ⟨hother trivial, ?_, fun j hj => ?_⟩
      · have hk := hi.knows
        show Knows _ a.obj (Function.update a.phase i .idle c)
        by_cases hci : c = i
        · subst hci
          rw [hp] at hk
          rw [Function.update_self, rets_append]
          intro hl
          have hl : call = .empty ∧ r = .isEmpty false := by simpa [rets] using hl
          exact hk.1 hl.1 hl.2
        · rw [Function.update_of_ne hci]
          have hr : rets c (h ++ [.ret i call r]) = rets c h := by simp [rets, Ne.symm hci]
          rwa [hr]
      · rcases mem_append.mp hj with hj | hj
        · exact hi.found j hj
        · simp only [mem_singleton, Action.ret.injEq] at hj
          obtain ⟨rfl, rfl, rfl⟩ := hj
          have htakes := hi.takes j
          rw [hp] at htakes
          obtain ⟨rfl, -⟩ := htakes rfl
          have hk := hi.knows
          rw [hp] at hk
          exact hk.2 rfl rfl

/-- A single consumer that calls `pop_front` only after its own `empty` returned `false` never pops
an empty deque, whatever other threads push, count or look at in between. -/
theorem pop_finds {c : ι} (hr : (machine α ι).Run Mealy.free (init items) [] s h)
    (ht : Past (Tested c) h) (i : ι) : .ret i .popFront (.item none) ∉ h := by
  obtain ⟨h', hr', rfl⟩ := refines_atomic hr
  have hinv : Past (Tested c) (visible h') → ConsumerInv c (abs s) h' := by
    refine hr'.invariant (P := fun a h' => Past (Tested c) (visible h') → ConsumerInv c a h') ?_ ?_
    · exact fun _ => ⟨fun _ => trivial, fun hl => by simp [rets] at hl, fun _ => not_mem_nil⟩
    · intro a h' e a' o ih _ hn ht
      rw [visible_append, past_append] at ht
      exact (ih ht.1).step ht.2 (Atomic.next_step hn)
  intro hmem
  exact (hinv ht).found i (mem_of_mem_filter hmem)

/-- `false` asks twice whether there is an item, and pops the one that `true` has pushed in
between. -/
def polling : TsQueueCalls Nat Bool × List (Action (QueueCall Nat) (QueueRet Nat) Bool) :=
  ((machine Nat Bool).exec Mealy.free (init []) []
    [.call false .empty, .step false, .step false, .step false, .call true (.push (.back 5)), .step true,
      .step true, .step true, .notify true none, .step true, .step true, .call false .empty,
      .step false, .step false, .step false, .call true (.push (.back 6)), .call false .popFront,
      .step true, .step true, .step true, .notify true none, .step true, .step true, .step false,
      .step false, .step false]).get (by decide +kernel)

theorem polling_tested : Past (Tested false) polling.2 := by
  have h : polling.2 =
      [.call false .empty, .ret false .empty (.isEmpty true), .call true (.push (.back 5)),
        .ret true (.push (.back 5)) .unit, .call false .empty, .ret false .empty (.isEmpty false),
        .call true (.push (.back 6)), .call false .popFront, .ret true (.push (.back 6)) .unit,
        .ret false .popFront (.item (some 5))] := by
    decide +kernel
  rw [h]
  simp [past_cons, Tested, takes, rets]

theorem pop_finds_polling : .ret false .popFront (.item none) ∉ polling.2 :=
  pop_finds (.of_isSome _ _ : (machine Nat Bool).Run Mealy.free (init []) [] polling.1 polling.2)
    polling_tested false

end TsQueueCalls

end AsioNetworking
