import AsioNetworking.Lib.Mealy
import AsioNetworking.Message

/-!
# The body as a stack

`<<` and `>>` treat the body of a message as a stack of values. A value is given by its bytes, and
`>>` knows of its variable only how many bytes it has. `valueStack` is what the two are meant to be:
a stack of values, where a pop has the size of the value on top.
-/

namespace AsioNetworking

open List

inductive StackOp where
  | push (data : List UInt8)
  /-- A pop into a variable of `k` bytes. -/
  | pull (k : Nat)
  deriving DecidableEq

variable {T : Type} [IdType T]

namespace Message

/-- The operators on a message. The outputs are the bytes that the variables of the pops get. -/
def stackNext (msg : Message T) : StackOp → Option (Message T × List (List UInt8))
  | .push data => some (msg.push data, [])
  | .pull k =>
      match msg.pull k with
      | none => none
      | some (data, msg) => some (msg, [data])

def bodyStack (T : Type) [IdType T] : Mealy (Message T) StackOp (List UInt8) := ⟨stackNext⟩

end Message

def valueNext (vals : List (List UInt8)) : StackOp → Option (List (List UInt8) × List (List UInt8))
  | .push data => some (data :: vals, [])
  | .pull k =>
      match vals with
      | [] => none
      | val :: vals => if val.length = k then some (vals, [val]) else none

/-- The pushes that no pop has matched, the last one first. -/
def valueStack : Mealy (List (List UInt8)) StackOp (List UInt8) := ⟨valueNext⟩

namespace Message

/-! ## The two operators -/

/-- `header.size` is the size of header and body, as far as 32 bits tell it. -/
def Sized (m : Message T) : Prop := m.header.size.toNat = m.size % 2 ^ 32

theorem sized_push (m : Message T) (data : List UInt8) : (m.push data).Sized :=
  UInt32.toNat_ofNat'

theorem pull_eq_some {m m' : Message T} {k data} (h : m.pull k = some (data, m')) :
    m.body = m'.body ++ data ∧ data.length = k ∧ m'.header.id = m.header.id ∧ m'.Sized := by
  unfold pull at h
  split at h
  · rename_i hk
    cases h
    refine ⟨(take_append_drop _ _).symm, ?_, rfl, UInt32.toNat_ofNat'⟩
    rw [length_drop]
    omega
  · cases h

theorem pull_append (m : Message T) {below data : List UInt8} (hb : m.body = below ++ data) :
    ∃ m', m.pull data.length = some (data, m') ∧ m'.body = below := by
  have hk : data.length ≤ m.body.length := by simp [hb]
  obtain ⟨⟨data', m'⟩, hm'⟩ := Option.isSome_iff_exists.mp (isSome_pull.mpr hk)
  obtain ⟨hbody, hlen, -⟩ := pull_eq_some hm'
  obtain ⟨rfl, rfl⟩ := append_inj' (hbody.symm.trans hb) hlen
  exact ⟨m', hm', rfl⟩

/-! ## The body refines the stack -/

/-- On top of the bytes of `m₀` the body has the values of the stack, and the id is that of `m₀`. -/
structure Stacked (m₀ : Message T) (vals : List (List UInt8)) (m : Message T) : Prop where
  body : m.body = m₀.body ++ vals.reverse.flatten
  id : m.header.id = m₀.header.id

omit [IdType T] in
theorem Stacked.start (m₀ : Message T) : Stacked m₀ [] m₀ := ⟨by simp, rfl⟩

theorem Stacked.step {m₀ m : Message T} {vals vals' op o} (hs : Stacked m₀ vals m)
    (hn : valueStack.next vals op = some (vals', o)) :
    ∃ m', (bodyStack T).next m op = some (m', o) ∧ Stacked m₀ vals' m' ∧ m'.Sized := by
  cases op with
  | push data =>
      cases hn
      refine ⟨m.push data, rfl, ⟨?_, hs.id⟩, sized_push m data⟩
      simp [push, hs.body]
  | pull k =>
      cases vals with
      | nil => cases hn
      | cons val vals =>
          simp only [valueStack, valueNext] at hn
          split at hn <;> cases hn
          rename_i hk
          subst hk
          have hb : m.body = (m₀.body ++ vals'.reverse.flatten) ++ val := by simp [hs.body]
          obtain ⟨m', hm', hbody⟩ := m.pull_append hb
          obtain ⟨-, -, hid, hsize⟩ := pull_eq_some hm'
          exact ⟨m', by simp [bodyStack, stackNext, hm'], ⟨hbody, hid.trans hs.id⟩, hsize⟩

theorem Stacked.exec (m₀ : Message T) {ops vals out}
    (he : valueStack.exec Mealy.free [] [] ops = some (vals, out)) :
    ∃ m, (bodyStack T).exec Mealy.free m₀ [] ops = some (m, out) ∧ Stacked m₀ vals m ∧
      (ops ≠ [] → m.Sized) := by
  cases ops with
  | nil =>
      cases he
      exact ⟨m₀, rfl, .start m₀, fun hne => absurd rfl hne⟩
  | cons op ops =>
      simp only [Mealy.exec, if_true] at he ⊢
      split at he
      · cases he
      · rename_i vals₁ o hn
        obtain ⟨m₁, hm₁, hs₁, hz₁⟩ := (Stacked.start m₀).step hn
        rw [hm₁]
        obtain ⟨m, hm, hs, hz⟩ := Mealy.exec_simulates (M := bodyStack T)
          (R := fun vals m => Stacked m₀ vals m ∧ m.Sized)
          (fun _ _ _ _ _ hR hn => hR.1.step hn) ops ⟨hs₁, hz₁⟩ he
        exact ⟨m, hm, hs, fun _ => hz⟩

/-! ## Nested pushes and pops -/

/-- All values are pushed, and popped in the reverse order. -/
def unwind (vals : List (List UInt8)) : List StackOp :=
  vals.map .push ++ vals.reverse.map fun val => .pull val.length

end Message

theorem valueStack_push (vals below : List (List UInt8)) (out : List (List UInt8)) :
    valueStack.exec Mealy.free below out (vals.map .push) = some (vals.reverse ++ below, out) := by
  induction vals generalizing below with
  | nil => rfl
  | cons val vals ih => simp [Mealy.exec, valueStack, valueNext] at ih ⊢; exact ih _

theorem valueStack_pull (vals below : List (List UInt8)) (out : List (List UInt8)) :
    valueStack.exec Mealy.free (vals ++ below) out (vals.map fun val => .pull val.length) =
      some (below, out ++ vals) := by
  induction vals generalizing out with
  | nil => simp [Mealy.exec]
  | cons val vals ih => simp [Mealy.exec, valueStack, valueNext] at ih ⊢; rw [ih]; simp

theorem valueStack_unwind (vals : List (List UInt8)) :
    valueStack.exec Mealy.free [] [] (Message.unwind vals) = some ([], vals.reverse) := by
  have hpush := valueStack_push vals [] []
  have hpull := valueStack_pull vals.reverse [] []
  rw [Message.unwind, Mealy.exec_append, hpush]
  simpa using hpull

namespace Message

/-- On any message: after each operation of a sequence whose pops match its pushes, the pops so far
have given what the stack of values gives, the body is that of the start with the unmatched pushes
on top, and the header has the size of the message and the id of the start. A sequence of pushes,
undone in the reverse order, gives the values back and restores the body. -/
theorem body_is_stack (hT : IdType.size T = 4) (m₀ : Message T) :
    (∀ ops ops', (valueStack.exec Mealy.free [] [] (ops ++ ops')).isSome = true →
      ∃ vals out m, valueStack.exec Mealy.free [] [] ops = some (vals, out) ∧
        (bodyStack T).exec Mealy.free m₀ [] ops = some (m, out) ∧
        m.body = m₀.body ++ vals.reverse.flatten ∧ m.header.id = m₀.header.id ∧
        (ops ≠ [] → m.header.size.toNat = (8 + m.body.length) % 2 ^ 32)) ∧
    ∀ vals, ∃ m, (bodyStack T).exec Mealy.free m₀ [] (unwind vals) = some (m, vals.reverse) ∧
      m.body = m₀.body := by
  constructor
  · intro ops ops' hsome
    rw [Mealy.exec_append] at hsome
    cases hv : valueStack.exec Mealy.free [] [] ops with
    | none => rw [hv] at hsome; cases hsome
    | some r =>
        obtain ⟨vals, out⟩ := r
        obtain ⟨m, hm, hs, hz⟩ := Stacked.exec m₀ hv
        refine ⟨vals, out, m, rfl, hm, hs.body, hs.id, fun hne => ?_⟩
        rw [hz hne, size, sizeofHeader_of_size_eq_four hT]
  · intro vals
    obtain ⟨m, hm, hs, -⟩ := Stacked.exec m₀ (valueStack_unwind vals)
    exact ⟨m, hm, by simpa using hs.body⟩

theorem body_is_stack_pair : ∃ m, (bodyStack UInt32).exec Mealy.free ⟨⟨7, 9⟩, [1]⟩ []
    (unwind [[2, 3], [4]]) = some (m, [[4], [2, 3]]) ∧ m.body = [1] :=
  (body_is_stack (T := UInt32) rfl ⟨⟨7, 9⟩, [1]⟩).2 [[2, 3], [4]]

end Message

end AsioNetworking
