import AsioNetworking.Lib.Pool
import AsioNetworking.RestListener

/-!
# One exchange of a REST service (`rest_session.hpp`, `rest_interface.hpp`)

A `Session` with its request and its response. `Interface::handler` answers a request by the virtual
function for its verb.
-/

namespace AsioNetworking

namespace Rest

open List

/-- The enumerators of `http::verb`: the `switch` of `handler` has a case for each of them. -/
inductive Verb where
  | get | post | put | delete_ | connect | options | trace | patch | unknown | acl | bind | copy | link
  | lock | merge | mkactivity | mkcalendar | mkcol | move | propfind | proppatch | rebind | report | search
  | subscribe | unbind | unlink | unlock | unsubscribe | head | checkout | msearch | notify | purge
  deriving DecidableEq

structure Request where
  method : Verb
  target : String
  version : UInt32
  body : List UInt8
  deriving DecidableEq

structure Response where
  status : Nat
  version : UInt32
  body : List UInt8
  deriving DecidableEq

/-- The virtual functions `handle_get`, `handle_post` and so on; `none` stands for an exception. -/
structure Handlers where
  derived : Verb → Request → Option Response
  /-- The implementations of `Interface` itself, where there are any. -/
  base : Verb → Request → Option Response

/-- `Interface` has no implementation of its own: the function is pure virtual. -/
def Verb.isPure : Verb → Bool
  | .get | .post | .put | .delete_ => true
  | _ => false

/-- Each case of the `switch` calls the virtual function of its verb. From the destructor of `Interface` on,
the functions of the derived class are gone. -/
def handler (f : Handlers) (destroying : Bool) (req : Request) : Option Response :=
  if destroying then f.base req.method req else f.derived req.method req

inductive ExchangePlace where
  | spawned
  /-- At `co_await http::async_read`. -/
  | reading
  /-- At `co_await http::async_write`. -/
  | writing (res : Response)
  | returned
  /-- An exception has left the coroutine. -/
  | thrown
  deriving DecidableEq

structure Exchange (ι : Type) where
  socket : ι
  place : ExchangePlace
  deriving DecidableEq

inductive ExchangeEvent where
  | start
  /-- `http::async_read` ends, with a request or with an error. -/
  | read (destroying : Bool) (req : Option Request)
  /-- `http::async_write` ends; `shutdown` may throw. -/
  | write (ok shutdownThrows : Bool)
  deriving DecidableEq

inductive ExchangeEffect where
  | asyncRead
  | request (destroying : Bool) (req : Request)
  | asyncWrite (res : Response)
  /-- The response is written. -/
  | written
  | shutdown
  deriving DecidableEq

/-! ## The session of the listener -/

def ExchangePlace.session : ExchangePlace → SessionPlace
  | .spawned => .spawned
  | .reading => .reading
  | .writing _ => .writing
  | .returned => .returned
  | .thrown => .thrown

/-- What the listener's session sees of an event. -/
def ExchangeEvent.session (f : Handlers) : ExchangeEvent → SessionEvent
  | .start => .start
  | .read _ none => .read false false
  | .read destroying (some req) => .read true (handler f destroying req).isNone
  | .write ok shutdownThrows => .write ok shutdownThrows

namespace Exchange

variable {ι : Type}

def session (x : Exchange ι) : Session ι := ⟨x.socket, x.place.session⟩

/-- A new `Session` for the socket, with its coroutine spawned. -/
def spawn (socket : ι) : Exchange ι × List ExchangeEffect := (⟨socket, .spawned⟩, [])

def coRead (f : Handlers) (destroying : Bool) (req : Option Request) (x : Exchange ι) :
    Exchange ι × List ExchangeEffect :=
  match req with
  | none => ({ x with place := .thrown }, [])
  | some req =>
      match handler f destroying req with
      | none => ({ x with place := .thrown }, [.request destroying req])
      | some res => ({ x with place := .writing res }, [.request destroying req, .asyncWrite res])

def coWrite (ok shutdownThrows : Bool) (x : Exchange ι) : Exchange ι × List ExchangeEffect :=
  if ok then
    if shutdownThrows then ({ x with place := .thrown }, [.written])
    else ({ x with place := .returned }, [.written, .shutdown])
  else ({ x with place := .thrown }, [])

def next (f : Handlers) (x : Exchange ι) : ExchangeEvent → Option (Exchange ι × List ExchangeEffect)
  | .start => if x.place = .spawned then some ({ x with place := .reading }, [.asyncRead]) else none
  | .read destroying req => if x.place = .reading then some (x.coRead f destroying req) else none
  | .write ok shutdownThrows =>
      match x.place with
      | .writing _ => some (x.coWrite ok shutdownThrows)
      | _ => none

def machine (ι : Type) (f : Handlers) : Mealy (Exchange ι) ExchangeEvent ExchangeEffect := ⟨next f⟩

/-! ## What an exchange does -/

/-- The states of the exchange on a socket, each with all that it has done until then. -/
inductive Transcript (f : Handlers) (socket : ι) : Exchange ι → List ExchangeEffect → Prop where
  | spawned : Transcript f socket ⟨socket, .spawned⟩ []
  | reading : Transcript f socket ⟨socket, .reading⟩ [.asyncRead]
  | writing (destroying req res) : handler f destroying req = some res →
      Transcript f socket ⟨socket, .writing res⟩
        [.asyncRead, .request destroying req, .asyncWrite res]
  | returned (destroying req res) : handler f destroying req = some res →
      Transcript f socket ⟨socket, .returned⟩
        [.asyncRead, .request destroying req, .asyncWrite res, .written, .shutdown]
  | unread : Transcript f socket ⟨socket, .thrown⟩ [.asyncRead]
  | unhandled (destroying req) : handler f destroying req = none →
      Transcript f socket ⟨socket, .thrown⟩ [.asyncRead, .request destroying req]
  | unwritten (destroying req res) : handler f destroying req = some res →
      Transcript f socket ⟨socket, .thrown⟩ [.asyncRead, .request destroying req, .asyncWrite res]
  | unclosed (destroying req res) : handler f destroying req = some res →
      Transcript f socket ⟨socket, .thrown⟩
        [.asyncRead, .request destroying req, .asyncWrite res, .written]

variable {f : Handlers} {socket : ι} {x x' : Exchange ι} {h o : List ExchangeEffect} {e : ExchangeEvent}

theorem Transcript.socket_eq (ht : Transcript f socket x h) : x.socket = socket := by
  cases ht <;> rfl

theorem Transcript.step (ht : Transcript f socket x h) (hn : x.next f e = some (x', o)) :
    Transcript f socket x' (h ++ o) := by
  cases ht with
  | spawned =>
      cases e <;> simp [next] at hn
      obtain ⟨rfl, rfl⟩ := hn
      exact .reading
  | reading =>
      cases e with
      | read destroying req =>
          simp only [next, if_true, Option.some.injEq] at hn
          cases req with
          | none => cases hn; exact .unread
          | some req =>
              simp only [coRead] at hn
              cases hres : handler f destroying req with
              | none => rw [hres] at hn; cases hn; exact .unhandled _ _ hres
              | some res => rw [hres] at hn; cases hn; exact .writing _ _ _ hres
      | start => simp [next] at hn
      | write => simp [next] at hn
  | writing destroying req res hres =>
      cases e with
      | write ok shutdownThrows =>
          simp only [next, Option.some.injEq, coWrite] at hn
          cases ok with
          | false => cases hn; exact .unwritten _ _ _ hres
          | true =>
              cases shutdownThrows with
              | true => cases hn; exact .unclosed _ _ _ hres
              | false => cases hn; exact .returned _ _ _ hres
      | start => simp [next] at hn
      | read => simp [next] at hn
  | _ => cases e <;> simp [next] at hn

/-- A request is handled when it is read. -/
theorem request_mem {destroying req} (hn : x.next f e = some (x', o))
    (hm : .request destroying req ∈ o) : e = .read destroying (some req) := by
  cases e with
  | start =>
      simp only [next] at hn
      split at hn <;> cases hn
      simp at hm
  | read late req' =>
      simp only [next] at hn
      split at hn
      · cases req' with
        | none => cases hn; simp at hm
        | some req' =>
            cases hres : handler f late req' <;> simp only [coRead, hres] at hn <;> cases hn <;>
              simp at hm <;> rw [hm.1, hm.2]
      · cases hn
  | write ok shutdownThrows =>
      cases hp : x.place <;> simp only [next, hp] at hn
      case writing res => cases ok <;> cases shutdownThrows <;> cases hn <;> simp at hm
      all_goals cases hn

/-- An exchange goes on as the session that the listener knows of. -/
theorem next_session (hn : x.next f e = some (x', o)) :
    x.session.next (e.session f) = some x'.session := by
  obtain ⟨socket, place⟩ := x
  cases e with
  | start =>
      simp only [next] at hn
      split at hn <;> cases hn
      rename_i hp
      obtain rfl : place = .spawned := hp
      rfl
  | read destroying req =>
      simp only [next] at hn
      split at hn
      · rename_i hp
        obtain rfl : place = .reading := hp
        cases req with
        | none => cases hn; rfl
        | some req =>
            cases hres : handler f destroying req <;> simp only [coRead, hres] at hn <;> cases hn <;>
              simp [session, Session.next, ExchangeEvent.session, ExchangePlace.session, hres]
      · cases hn
  | write ok shutdownThrows =>
      cases place with
      | writing res => cases ok <;> cases shutdownThrows <;> cases hn <;> rfl
      | _ => cases hn

end Exchange

end Rest

end AsioNetworking
