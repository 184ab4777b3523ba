import AsioNetworking.Lib.Lists
import AsioNetworking.Lib.Mealy
import Mathlib.Data.List.Induction

/-!
# FIFO channels

A channel gives back what was put into it, in the same order. A history of sends and receipts is one of
a channel if and only if, at any time, what was received is a prefix of what was sent.
-/

inductive ChannelEvent (α : Type*) where
  | send (a : α)
  | receive
  deriving DecidableEq

inductive Transfer (α : Type*) where
  | sent (a : α)
  | received (a : α)
  deriving DecidableEq

namespace Channel

open List

variable {α : Type*}

def machine (α : Type*) : Mealy (List α) (ChannelEvent α) (Transfer α) where
  next
    | q, .send a => some (q ++ [a], [.sent a])
    | [], .receive => none
    | a :: q, .receive => some (q, [.received a])

def sent (l : List (Transfer α)) : List α :=
  l.filterMap fun
    | .sent a => some a
    | _ => none

def received (l : List (Transfer α)) : List α :=
  l.filterMap fun
    | .received a => some a
    | _ => none

/-- At any time, what was received is a prefix of what was sent. -/
def Faithful (l : List (Transfer α)) : Prop := ∀ p, p <+: l → received p <+: sent p

variable {l o p : List (Transfer α)} {a : α}

@[simp] theorem sent_append : sent (l ++ o) = sent l ++ sent o := filterMap_append

@[simp] theorem received_append : received (l ++ o) = received l ++ received o := filterMap_append

@[simp] theorem sent_nil : sent ([] : List (Transfer α)) = [] := rfl

@[simp] theorem received_nil : received ([] : List (Transfer α)) = [] := rfl

@[simp] theorem sent_sent : sent (.sent a :: l) = a :: sent l := rfl

@[simp] theorem sent_received : sent (.received a :: l) = sent l := rfl

@[simp] theorem received_sent : received (.sent a :: l) = received l := rfl

@[simp] theorem received_received : received (.received a :: l) = a :: received l := rfl

theorem received_mono (hp : p <+: l) : received p <+: received l := by
  obtain ⟨t, rfl⟩ := hp
  rw [received_append]
  exact prefix_append _ _

theorem sent_mono (hp : p <+: l) : sent p <+: sent l := by
  obtain ⟨t, rfl⟩ := hp
  rw [sent_append]
  exact prefix_append _ _

/-! ## Runs of a channel -/

theorem run_of_faithful (hl : Faithful l) :
    (machine α).Run Mealy.free [] [] ((sent l).drop (received l).length) l := by
  induction l using reverseRecOn with
  | nil => exact .refl
  | append_singleton l x ih =>
      have hr := ih fun p hp => hl p (hp.trans (prefix_append _ _))
      have hlen := (hl l (prefix_append _ _)).length_le
      cases x with
      | sent a =>
          have hdrop : (sent (l ++ [.sent a])).drop (received (l ++ [.sent a])).length =
              (sent l).drop (received l).length ++ [a] := by
            simp [drop_append_of_le_length hlen]
          have hn : (machine α).next ((sent l).drop (received l).length) (.send a) =
              some ((sent l).drop (received l).length ++ [a], [.sent a]) := rfl
          rw [hdrop]
          exact .step hr trivial hn
      | received a =>
          obtain ⟨t, ht⟩ := hl _ prefix_rfl
          have ht : received l ++ a :: t = sent l := by simpa [sent, received] using ht
          have hcons : (sent l).drop (received l).length = a :: t := by simp [← ht]
          have hdrop : (sent (l ++ [.received a])).drop (received (l ++ [.received a])).length = t := by
            simp [← ht, drop_append]
          have hn : (machine α).next ((sent l).drop (received l).length) .receive =
              some (t, [.received a]) := by
            rw [hcons]
            rfl
          rw [hdrop]
          exact .step hr trivial hn

theorem Faithful.concat {x : Transfer α} (hl : Faithful l)
    (hx : received (l ++ [x]) <+: sent (l ++ [x])) : Faithful (l ++ [x]) := by
  intro p hp
  rcases prefix_concat_iff.mp hp with rfl | hp
  · exact hx
  · exact hl p hp

/-- A channel holds what was sent and not received. -/
theorem run_balance {q : List α} (hr : (machine α).Run Mealy.free [] [] q l) :
    received l ++ q = sent l ∧ Faithful l := by
  refine hr.invariant (P := fun q l => received l ++ q = sent l ∧ Faithful l)
    ⟨rfl, fun p hp => by rw [prefix_nil.mp hp]; exact prefix_rfl⟩ ?_
  rintro q l e q' o ⟨hq, hl⟩ - hn
  cases e with
  | send a =>
      cases hn
      have hbal : received (l ++ [.sent a]) ++ (q ++ [a]) = sent (l ++ [.sent a]) := by simp [← hq]
      exact ⟨hbal, hl.concat ⟨_, hbal⟩⟩
  | receive =>
      cases q with
      | nil => cases hn
      | cons a q =>
          cases hn
          have hbal : received (l ++ [.received a]) ++ q' = sent (l ++ [.received a]) := by simp [← hq]
          exact ⟨hbal, hl.concat ⟨_, hbal⟩⟩

/-- A history is one of a channel if and only if it is faithful. -/
theorem exists_run_iff : (∃ q, (machine α).Run Mealy.free [] [] q l) ↔ Faithful l :=
  ⟨fun ⟨_, hr⟩ => (run_balance hr).2, fun hl => ⟨_, run_of_faithful hl⟩⟩

/-! ## Machines that implement a channel -/

section

variable {σ ε ο : Type*} {M : Mealy σ ε ο} {G : σ → List ο → ε → Prop} {s₀ s : σ} {h : List ο}

/-- The implementation rule: where what was received is a prefix of what was sent in every state on
the way, and a step receives nothing or does nothing but receive one value, the history is one of a
channel. -/
theorem faithful_of_run (g : List ο → List (Transfer α)) (hg : ∀ h o, g (h ++ o) = g h ++ g o)
    (hr : M.Run G s₀ [] s h)
    (hs : ∀ s h e s' o, M.Run G s₀ [] s h → G s h e → M.next s e = some (s', o) →
      received (g o) = [] ∨ ∃ a, g o = [.received a])
    (hp : ∀ s₁ h₁, M.Run G s₀ [] s₁ h₁ → h₁ <+: h → received (g h₁) <+: sent (g h₁)) :
    Faithful (g h) := by
  induction hr with
  | refl =>
      have hnil := hg [] []
      rw [append_nil, self_eq_append_right] at hnil
      intro p hpre
      rw [hnil] at hpre
      rw [prefix_nil.mp hpre]
      exact prefix_rfl
  | @step s h e s' o hr hG hn ih =>
      have ih := ih fun s₁ h₁ hr₁ hpre => hp s₁ h₁ hr₁ (hpre.trans (prefix_append _ _))
      have hh := hp s h hr (prefix_append _ _)
      have hall := hp s' (h ++ o) (.step hr hG hn) prefix_rfl
      rw [hg] at hall ⊢
      intro p hpre
      rcases prefix_or_prefix_of_prefix hpre (prefix_append (g h) (g o)) with hle | ⟨t, rfl⟩
      · exact ih p hle
      have ht : t <+: g o := (prefix_append_right_inj _).mp hpre
      rcases hs s h e s' o hr hG hn with hnone | ⟨a, ha⟩
      · have hnil : received t = [] := prefix_nil.mp (hnone ▸ received_mono ht)
        rw [received_append, hnil, append_nil]
        exact hh.trans (sent_mono (prefix_append _ _))
      · rw [ha] at ht hall
        cases t with
        | nil => simpa using hh
        | cons x t =>
            obtain ⟨rfl, htail⟩ := cons_prefix_cons.mp ht
            rw [prefix_nil.mp htail]
            exact hall

end

end Channel
