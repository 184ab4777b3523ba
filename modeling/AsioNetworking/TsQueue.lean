import AsioNetworking.Lib.Mealy
import Mathlib.Logic.Function.Basic

/-!
# The thread-safe queue (`net_tsQueue.hpp`)

A `tsqueue` and the threads that use it. Locking a mutex, working on the deque, notifying and
blocking are single steps, so that any thread may come between any two of them. A condition variable
wakes a thread only when it is blocked already, and may wake it for no reason.
-/

namespace AsioNetworking

variable {α ι : Type}

/-! ## State -/

inductive Push (α : Type) where
  | back (item : α)
  | front (item : α)
  deriving DecidableEq

inductive QueueCall (α : Type) where
  | front | back
  | push (push : Push α)
  | empty | count | clear
  | popFront | popBack
  | wait
  deriving DecidableEq

/-- What a thread does next. In `wait` the call is that of `empty()`. -/
inductive ThreadPc (α : Type) where
  | idle
  /-- `std::scoped_lock lock(m_oMuxQueue)`. -/
  | lockQueue (call : QueueCall α)
  | work (call : QueueCall α)
  /-- In a push: `std::unique_lock<std::mutex> ul(m_oMuxBlocking)`. -/
  | lockBlocking (push : Push α)
  | notify (push : Push α)
  /-- The end of `ul`. -/
  | unlockBlocking (push : Push α)
  /-- The end of `lock`. `isEmpty` is the value that `empty()` returns. -/
  | unlockQueue (call : QueueCall α) (isEmpty : Bool)
  /-- In `wait`, when `empty()` was true: `std::unique_lock<std::mutex> ul(m_oMuxBlocking)`. -/
  | lockToWait
  | wait
  | blocked
  /-- Woken, and about to take `m_oMuxBlocking` back. -/
  | woken
  /-- The end of the body of the loop. -/
  | unlockAfterWait
  deriving DecidableEq

structure TsQueue (α ι : Type) where
  deqQueue : List α
  /-- The thread that holds `m_oMuxQueue`. -/
  muxQueue : Option ι
  /-- The thread that holds `m_oMuxBlocking`. -/
  muxBlocking : Option ι
  /-- The threads that are blocked on `m_cvBlocking`. -/
  waiters : List ι
  pc : ι → ThreadPc α

inductive QueueEvent (α ι : Type) where
  | call (i : ι) (call : QueueCall α)
  /-- The next step of the thread `i`, other than `notify_one`. -/
  | step (i : ι)
  /-- The thread `i` calls `notify_one`, which wakes `woken`. -/
  | notify (i : ι) (woken : Option ι)
  | spurious (i : ι)
  deriving DecidableEq

inductive QueueEffect (α ι : Type) where
  | pushed (i : ι) (push : Push α)
  /-- A pop, `front()` or `back()` gives the item. -/
  | got (i : ι) (call : QueueCall α) (item : α)
  /-- `front()`, `back()` or a pop of an empty deque. -/
  | emptyDeque (i : ι)
  deriving DecidableEq

def Push.apply (items : List α) : Push α → List α
  | .back item => items ++ [item]
  | .front item => item :: items

namespace TsQueue

variable [DecidableEq ι]

def init (items : List α) : TsQueue α ι := ⟨items, none, none, [], fun _ => .idle⟩

/-! ## Steps -/

def setPc (i : ι) (pc : ThreadPc α) (s : TsQueue α ι) : TsQueue α ι :=
  { s with pc := Function.update s.pc i pc }

/-- The work of the call on the deque, and where the thread goes on. -/
def work (i : ι) (call : QueueCall α) (items : List α) :
    List α × ThreadPc α × List (QueueEffect α ι) :=
  let get (item : Option α) := match item with
    | none => [.emptyDeque i]
    | some item => [.got i call item]
  match call with
  | .front => (items, .unlockQueue call false, get items.head?)
  | .back => (items, .unlockQueue call false, get items.getLast?)
  | .push p => (p.apply items, .lockBlocking p, [.pushed i p])
  | .empty => (items, .unlockQueue call items.isEmpty, [])
  | .count => (items, .unlockQueue call false, [])
  | .clear => ([], .unlockQueue call false, [])
  | .popFront => (items.tail, .unlockQueue call false, get items.head?)
  | .popBack => (items.dropLast, .unlockQueue call false, get items.getLast?)
  | .wait => (items, .unlockQueue call items.isEmpty, [])

/-- Where a thread goes on after `m_oMuxQueue` is unlocked. -/
def afterQueue (call : QueueCall α) (isEmpty : Bool) : ThreadPc α :=
  match call with
  | .wait => if isEmpty then .lockToWait else .idle
  | _ => .idle

/-- The thread `i` takes `m_oMuxBlocking` and goes on with `pc`. -/
def takeBlocking (i : ι) (pc : ThreadPc α) (s : TsQueue α ι) :
    Option (TsQueue α ι × List (QueueEffect α ι)) :=
  if s.muxBlocking.isNone then some ({ s with muxBlocking := some i }.setPc i pc, []) else none

/-- The next step of the thread `i`; `none` when it has to wait for a mutex or for a notification. -/
def step (i : ι) (s : TsQueue α ι) : Option (TsQueue α ι × List (QueueEffect α ι)) :=
  match s.pc i with
  | .idle => none
  | .lockQueue call =>
      if s.muxQueue.isNone then some ({ s with muxQueue := some i }.setPc i (.work call), [])
      else none
  | .work call =>
      let (items, pc, o) := work i call s.deqQueue
      some ({ s with deqQueue := items }.setPc i pc, o)
  | .lockBlocking push => s.takeBlocking i (.notify push)
  | .notify _ => none
  | .unlockBlocking push =>
      some ({ s with muxBlocking := none }.setPc i (.unlockQueue (.push push) false), [])
  | .unlockQueue call isEmpty =>
      some ({ s with muxQueue := none }.setPc i (afterQueue call isEmpty), [])
  | .lockToWait => s.takeBlocking i .wait
  | .wait => some ({ s with muxBlocking := none, waiters := i :: s.waiters }.setPc i .blocked, [])
  | .blocked => none
  | .woken => s.takeBlocking i .unlockAfterWait
  | .unlockAfterWait =>
      some ({ s with muxBlocking := none }.setPc i (.lockQueue .wait), [])

def wake (i : ι) (s : TsQueue α ι) : TsQueue α ι :=
  { s with waiters := s.waiters.filter (· ≠ i) }.setPc i .woken

/-- `notify_one` wakes one of the blocked threads, when there is one. -/
def notifyOne (woken : Option ι) (s : TsQueue α ι) : Option (TsQueue α ι) :=
  match woken with
  | none => if s.waiters.isEmpty then some s else none
  | some j => if j ∈ s.waiters then some (s.wake j) else none

def next (s : TsQueue α ι) : QueueEvent α ι → Option (TsQueue α ι × List (QueueEffect α ι))
  | .call i call =>
      match s.pc i with
      | .idle => some (s.setPc i (.lockQueue call), [])
      | _ => none
  | .step i => s.step i
  | .notify i woken =>
      match s.pc i with
      | .notify push =>
          match s.notifyOne woken with
          | none => none
          | some s => some (s.setPc i (.unlockBlocking push), [])
      | _ => none
  | .spurious i => if i ∈ s.waiters then some (s.wake i, []) else none

def machine (α ι : Type) [DecidableEq ι] :
    Mealy (TsQueue α ι) (QueueEvent α ι) (QueueEffect α ι) := ⟨next⟩

end TsQueue

def ThreadPc.call? : ThreadPc α → Option (QueueCall α)
  | .idle => none
  | .lockQueue call | .work call | .unlockQueue call _ => some call
  | .lockBlocking push | .notify push | .unlockBlocking push => some (.push push)
  | .lockToWait | .wait | .blocked | .woken | .unlockAfterWait => some .wait

def ThreadPc.isPushing (pc : ThreadPc α) : Bool :=
  match pc.call? with
  | some (.push _) => true
  | _ => false

end AsioNetworking
