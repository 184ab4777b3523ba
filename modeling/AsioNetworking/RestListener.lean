import AsioNetworking.Lib.Lists
import AsioNetworking.Lib.Mealy

/-!
# The REST listener (`rest_listener.hpp`, `rest_session.hpp`)

`Listener::co_accept` and the sessions that it spawns, as coroutines: a coroutine is suspended at a
`co_await`, it has returned, or an exception has left it. All of them are spawned `detached`, which
discards the exception.
-/

namespace AsioNetworking

namespace Rest

open List

/-- Where a session is in `run`, `co_read` and `co_write`. -/
inductive SessionPlace where
  | spawned
  /-- At `co_await http::async_read`. -/
  | reading
  /-- At `co_await http::async_write`. -/
  | writing
  | returned
  /-- An exception has left the coroutine. -/
  | thrown
  deriving DecidableEq

/-- A `Session`, with a name for the socket that it was given. -/
structure Session (ι : Type) where
  socket : ι
  place : SessionPlace
  deriving DecidableEq

structure Listener (ι : Type) where
  /-- The outstanding `async_accept`s. -/
  accepts : Nat
  sessions : List (Session ι)
  deriving DecidableEq

/-- How an operation that a session awaits ends, with what follows it before the next `co_await`. -/
inductive SessionEvent where
  | start
  /-- `http::async_read` ends; the request handler may throw. -/
  | read (ok handlerThrows : Bool)
  /-- `http::async_write` ends; `shutdown` may throw. -/
  | write (ok shutdownThrows : Bool)
  deriving DecidableEq

inductive ListenerEvent (ι : Type) where
  /-- `async_accept` ends, with a socket or with an error, which `use_awaitable` throws. -/
  | accept (outcome : Option ι)
  | session (k : Nat) (e : SessionEvent)
  deriving DecidableEq

inductive ListenerEffect (ι : Type) where
  | accepted (socket : ι)
  | error
  deriving DecidableEq

variable {ι : Type}

namespace Session

/-- `run`, which awaits `co_read`, which awaits `co_write`. -/
def next (s : Session ι) : SessionEvent → Option (Session ι)
  | .start => if s.place = .spawned then some { s with place := .reading } else none
  | .read ok handlerThrows =>
      if s.place = .reading then
        some { s with place := if ok && !handlerThrows then .writing else .thrown }
      else none
  | .write ok shutdownThrows =>
      if s.place = .writing then
        some { s with place := if ok && !shutdownThrows then .returned else .thrown }
      else none

theorem socket_next {s s' : Session ι} {e} (hn : s.next e = some s') : s'.socket = s.socket := by
  cases e <;> simp only [next] at hn <;> split at hn <;> cases hn <;> rfl

end Session

namespace Listener

def asyncAccept (l : Listener ι) : Listener ι := { l with accepts := l.accepts + 1 }

def start : Listener ι := asyncAccept ⟨0, []⟩

/-- `co_accept` goes on when its `async_accept` ends: an error leaves the loop. -/
def coAccept (outcome : Option ι) (l : Listener ι) : Listener ι × List (ListenerEffect ι) :=
  match outcome with
  | none => (l, [.error])
  | some socket =>
      (asyncAccept { l with sessions := l.sessions ++ [⟨socket, .spawned⟩] }, [.accepted socket])

def next (l : Listener ι) : ListenerEvent ι → Option (Listener ι × List (ListenerEffect ι))
  | .accept outcome =>
      if l.accepts = 0 then none else some (coAccept outcome { l with accepts := l.accepts - 1 })
  | .session k e =>
      match l.sessions[k]? with
      | none => none
      | some s => (s.next e).map fun s => ({ l with sessions := l.sessions.set k s }, [])

def machine (ι : Type) : Mealy (Listener ι) (ListenerEvent ι) (ListenerEffect ι) := ⟨next⟩

def accepted (h : List (ListenerEffect ι)) : List ι :=
  h.filterMap fun
    | .accepted socket => some socket
    | .error => none

/-! ## Steps -/

inductive ListenerStep (l : Listener ι) :
    ListenerEvent ι → Listener ι → List (ListenerEffect ι) → Prop where
  | accepted (socket) : l.accepts ≠ 0 → ListenerStep l (.accept (some socket))
      { l with sessions := l.sessions ++ [⟨socket, .spawned⟩] } [.accepted socket]
  | error : l.accepts ≠ 0 →
      ListenerStep l (.accept none) { l with accepts := l.accepts - 1 } [.error]
  /-- A session goes on, and the listener does not notice. -/
  | session (k e sessions) : sessions.map (·.socket) = l.sessions.map (·.socket) →
      ListenerStep l (.session k e) { l with sessions } []

theorem next_listenerStep {l l' : Listener ι} {e o} (hn : l.next e = some (l', o)) :
    ListenerStep l e l' o := by
  cases e with
  | accept outcome =>
      simp only [next] at hn
      split at hn
      · cases hn
      · rename_i hacc
        cases outcome with
        | none => cases hn; exact .error hacc
        | some socket =>
            cases hn
            have hstep := ListenerStep.accepted (l := l) socket hacc
            have hpos : l.accepts - 1 + 1 = l.accepts := by omega
            simpa only [asyncAccept, hpos] using hstep
  | session k e =>
      simp only [next] at hn
      split at hn
      · cases hn
      · rename_i s hs
        obtain ⟨s', hs', he⟩ := Option.map_eq_some_iff.mp hn
        cases he
        refine .session k e _ ?_
        obtain ⟨l₁, l₂, hl, -, hset, -⟩ := exists_split_of_getElem? hs
        rw [hset, hl]
        simp [Session.socket_next hs']

/-! ## Runs -/

/-- Exactly one accept is outstanding, and there is one session for each socket that was accepted. -/
structure Accepting (l : Listener ι) (h : List (ListenerEffect ι)) : Prop where
  accepts : l.accepts = 1
  sessions : l.sessions.map (·.socket) = accepted h

def Accepts (_ : Listener ι) (_ : List (ListenerEffect ι)) : ListenerEvent ι → Prop
  | .accept none => False
  | _ => True

/-- The listener keeps accepting, whatever becomes of its sessions, if and only if no accept ends with
an error. -/
theorem accepting_iff (es : List (ListenerEvent ι)) :
    (machine ι).Always Accepting start [] es ↔ (machine ι).Along Accepts start [] es := by
  refine Mealy.always_iff_along (I := fun _ _ => True) (fun _ _ _ _ _ _ _ => trivial) ?_ es trivial
    ⟨rfl, rfl⟩
  rintro l h e l' o - ⟨hacc, hses⟩ hn
  cases next_listenerStep hn with
  | accepted socket =>
      refine iff_of_true ⟨hacc, ?_⟩ trivial
      simpa [accepted] using hses
  | error =>
      refine iff_of_false (fun hp => ?_) (fun hg => hg)
      have := hp.accepts
      simp [hacc] at this
  | session k e sessions hsame =>
      refine iff_of_true ⟨hacc, ?_⟩ trivial
      rw [append_nil]
      exact hsame.trans hses

/-- A listener that has lost its accept never accepts again. -/
theorem deaf {l₀ l : Listener ι} {h₀ h} {G : Listener ι → List (ListenerEffect ι) →
    ListenerEvent ι → Prop} (hr : (machine ι).Run G l₀ h₀ l h) (hz : l₀.accepts = 0) :
    l.accepts = 0 ∧ accepted h = accepted h₀ := by
  refine hr.invariant (P := fun l h => l.accepts = 0 ∧ accepted h = accepted h₀) ⟨hz, rfl⟩ ?_
  rintro l h e l' o ⟨hz, hh⟩ - hn
  cases next_listenerStep hn with
  | accepted _ hne => exact absurd hz hne
  | error hne => exact absurd hz hne
  | session => exact ⟨hz, by simpa using hh⟩

/-- A client is gone before it is accepted. -/
theorem not_accepting : ¬ (machine Nat).Always Accepting start []
    [.accept (some 0), .session 0 .start, .accept none] := by
  intro ha
  have hs := ha.of_isSome _ (by decide +kernel)
  exact absurd hs.accepts (by decide +kernel)

end Listener

end Rest

end AsioNetworking
