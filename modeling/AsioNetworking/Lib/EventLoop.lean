import Mathlib.Data.Bool.Basic

/-!
# Event loops and their threads

An event loop runs handlers on a thread that is started for it, until it is told to stop or has no
work left; either leaves it stopped. The object of a thread that was started must be joined before
it is assigned again or destroyed: otherwise the process is aborted.
-/

/-- What a thread object stands for. -/
inductive Thread where
  | none | running | finished
  deriving DecidableEq

def Thread.joinable : Thread → Bool
  | .none => false
  | _ => true

structure EventLoop where
  stopped : Bool
  thread : Thread
  aborted : Bool
  deriving DecidableEq

namespace EventLoop

def init : EventLoop := ⟨false, .none, false⟩

def spawn (l : EventLoop) : EventLoop :=
  { l with thread := .running, aborted := l.aborted || l.thread.joinable }

def stop (l : EventLoop) : EventLoop := { l with stopped := true }

/-- `none` as long as the thread is running. -/
def join (l : EventLoop) : Option EventLoop :=
  if l.thread = .running then none else some { l with thread := .none }

/-- The loop returns on its thread: it was stopped, or it is out of work. -/
def quit (l : EventLoop) (outOfWork : Bool) : Option EventLoop :=
  if l.thread = .running ∧ (l.stopped = true ∨ outOfWork = true) then
    some { l with thread := .finished, stopped := true }
  else none

def halt (l : EventLoop) : EventLoop := { l with stopped := true, thread := .none }

def takes (l : EventLoop) : Bool := l.thread = .running && !l.stopped

/-- Nobody has started a thread for the loop or stopped it. -/
def fresh (l : EventLoop) : Bool := !l.stopped && !l.thread.joinable

variable {l l' : EventLoop}

@[simp] theorem stopped_spawn (l : EventLoop) : l.spawn.stopped = l.stopped := rfl
@[simp] theorem aborted_stop (l : EventLoop) : l.stop.aborted = l.aborted := rfl
@[simp] theorem fresh_spawn (l : EventLoop) : l.spawn.fresh = false := by
  simp [fresh, spawn, Thread.joinable]
@[simp] theorem fresh_stop (l : EventLoop) : l.stop.fresh = false := rfl

@[simp] theorem fresh_halt (l : EventLoop) : l.halt.fresh = false := rfl
@[simp] theorem aborted_halt (l : EventLoop) : l.halt.aborted = l.aborted := rfl

/-- A stopped loop returns on its thread, which can be joined then. -/
theorem halt_eq (l : EventLoop) (b : Bool) :
    l.stop.join = some l.halt ∨ ∃ l', l.stop.quit b = some l' ∧ l'.join = some l.halt := by
  cases ht : l.thread with
  | running =>
      refine Or.inr ⟨{ l.stop with thread := .finished }, ?_, ?_⟩
      · simp [quit, stop, ht]
      · simp [join, stop, halt]
  | none => exact Or.inl (by simp [join, stop, halt, ht])
  | finished => exact Or.inl (by simp [join, stop, halt, ht])

/-- A new thread does no harm and runs the loop exactly when the loop is fresh. -/
theorem spawn_iff (ha : l.aborted = false) :
    l.spawn.aborted = false ∧ l.stopped = false ↔ l.fresh = true := by
  simp [spawn, fresh, ha, and_comm]

theorem join_spec (h : l.join = some l') : l'.stopped = l.stopped ∧ l'.aborted = l.aborted := by
  unfold join at h
  split at h
  · cases h
  · cases h; exact ⟨rfl, rfl⟩

theorem quit_spec {b} (h : l.quit b = some l') :
    l.fresh = false ∧ l'.stopped = true ∧ l'.aborted = l.aborted := by
  unfold quit at h
  split at h
  · rename_i hq
    cases h
    exact ⟨by simp [fresh, hq.1, Thread.joinable], rfl, rfl⟩
  · cases h

/-- A loop that has work left returns only after a stop. -/
theorem stopped_of_quit (h : l.quit false = some l') :
    l.stopped = true ∧ l.thread.joinable = true := by
  unfold quit at h
  split at h
  · rename_i hq
    exact ⟨by simpa using hq.2, by rw [hq.1]; rfl⟩
  · cases h

theorem fresh_of_stopped (h : l.stopped = true) : l.fresh = false := by simp [fresh, h]

end EventLoop
