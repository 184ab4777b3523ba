import AsioNetworking.Connection.Closing
import AsioNetworking.Lib.EventLoop

/-!
# The client (`net_client.hpp`)

A client as a machine: its connection, the context with the thread that runs it, and where its user
is in `Disconnect`. `Connect` and `Send` are one step each; `Disconnect` is taken apart. A handler is
taken by the context thread in one step and has run in another: `stop()` does not take it back.

A connection that `Connect` replaces is not followed any further.
-/

namespace AsioNetworking

variable {T : Type}

/-- What becomes of a call of `Connect`: the host is not resolved, the thread cannot be created, or
both succeed. That the server cannot be reached shows later, in the handler of `async_connect`. -/
inductive Attempt where
  | unresolved | noThread | started
  deriving DecidableEq

namespace ClientInterface

inductive Place where
  | outside
  /-- `if(IsConnected())` in `Disconnect`. -/
  | isConnected
  /-- `m_pConnection->Disconnect()`. -/
  | disconnect
  | stop
  | join
  | release
  deriving DecidableEq

end ClientInterface

structure ClientInterface (T : Type) where
  pConnection : Option (Connection T)
  /-- What `m_pConnection.release()` has given away, the last one first. -/
  released : List (Connection T)
  context : EventLoop
  /-- The handler that the context thread is in. -/
  handler : Option (Connection.Event T)
  place : ClientInterface.Place

inductive ClientEvent (T : Type) where
  | connect (attempt : Attempt)
  | send (msg : Message T)
  /-- The call of `Disconnect`. -/
  | disconnect
  /-- The user's thread goes on in `Disconnect`. -/
  | goOn
  | take (e : Connection.Event T)
  | finish
  /-- The system does its part of an outstanding operation. -/
  | system (e : Connection.Event T)
  /-- `m_oContext.run()` returns. -/
  | quit
  deriving DecidableEq

inductive ClientEffect (T : Type) where
  | conn (x : Effect T)
  /-- A handler has run. -/
  | ran (e : Connection.Event T)
  /-- `Connect` returns `result`; the context is `stopped` then. -/
  | connect (result stopped : Bool)
  | disconnect
  /-- `Disconnect` returns. -/
  | returned
  deriving DecidableEq

namespace ClientInterface

variable [IdType T]

def init : ClientInterface T := ⟨none, [], .init, none, .outside⟩

/-! ## The user -/

def connect (attempt : Attempt) (c : ClientInterface T) : ClientInterface T × List (ClientEffect T) :=
  match attempt with
  | .unresolved => (c, [.connect false c.context.stopped])
  | .noThread =>
      ({ c with pConnection := some .connected }, [.connect false c.context.stopped])
  | .started =>
      let context := c.context.spawn
      ({ c with pConnection := some .connected, context },
        if context.aborted then [] else [.connect true context.stopped])

def isConnected (c : ClientInterface T) : Bool :=
  match c.pConnection with
  | none => false
  | some conn => conn.socketOpen

def send (msg : Message T) (c : ClientInterface T) : ClientInterface T × List (ClientEffect T) :=
  match c.pConnection with
  | none => (c, [])
  | some conn =>
      if conn.socketOpen then
        ({ c with pConnection := some (conn.send msg).1 }, (conn.send msg).2.map .conn)
      else (c, [])

def goOn (c : ClientInterface T) : Option (ClientInterface T × List (ClientEffect T)) :=
  match c.place with
  | .outside => none
  | .isConnected => some ({ c with place := if c.isConnected then .disconnect else .stop }, [])
  | .disconnect =>
      match c.pConnection with
      | none => none
      | some conn => some ({ c with pConnection := some conn.disconnect.1, place := .stop }, [])
  | .stop => some ({ c with context := c.context.stop, place := .join }, [])
  | .join => c.context.join.map fun context => ({ c with context, place := .release }, [])
  | .release => some ({ c with
      pConnection := none
      released := c.pConnection.toList ++ c.released
      place := .outside }, [.returned])

/-! ## The context thread and the system -/

/-- The steps of an outstanding operation before its handler runs. -/
def isSystem : Connection.Event T → Bool
  | .established | .put _ _ => true
  | _ => false

def onConnection (e : Connection.Event T) (c : ClientInterface T) :
    Option (ClientInterface T × List (ClientEffect T)) :=
  match c.pConnection with
  | none => none
  | some conn => (conn.next e).map fun r => ({ c with pConnection := some r.1 }, r.2.map .conn)

def take (e : Connection.Event T) (c : ClientInterface T) :
    Option (ClientInterface T × List (ClientEffect T)) :=
  if c.context.takes ∧ c.handler.isNone ∧ Connection.isHandler e ∧ (c.onConnection e).isSome then
    some ({ c with handler := some e }, [])
  else none

def finish (c : ClientInterface T) : Option (ClientInterface T × List (ClientEffect T)) :=
  match c.handler with
  | none => none
  | some e => (onConnection e { c with handler := none }).map fun (c, o) => (c, .ran e :: o)

def quit (c : ClientInterface T) : Option (ClientInterface T × List (ClientEffect T)) :=
  if c.handler.isNone then
    (c.context.quit (c.pConnection.all fun conn => !conn.busy)).map fun context =>
      ({ c with context }, [])
  else none

def next (c : ClientInterface T) (e : ClientEvent T) :
    Option (ClientInterface T × List (ClientEffect T)) :=
  if c.context.aborted then none
  else
    match e with
    | .connect attempt => if c.place = .outside then some (c.connect attempt) else none
    | .send msg => if c.place = .outside then some (c.send msg) else none
    | .disconnect =>
        if c.place = .outside then some ({ c with place := .isConnected }, [.disconnect]) else none
    | .goOn => c.goOn
    | .take e => c.take e
    | .finish => c.finish
    | .system e => if isSystem e then c.onConnection e else none
    | .quit => c.quit

def machine (T : Type) [IdType T] :
    Mealy (ClientInterface T) (ClientEvent T) (ClientEffect T) := ⟨next⟩

/-! ## Steps -/

inductive ClientStep (c : ClientInterface T) :
    ClientEvent T → ClientInterface T → List (ClientEffect T) → Prop where
  | connect (attempt) : c.place = .outside →
      ClientStep c (.connect attempt) (c.connect attempt).1 (c.connect attempt).2
  | send (msg) : c.place = .outside → ClientStep c (.send msg) (c.send msg).1 (c.send msg).2
  | disconnect : c.place = .outside →
      ClientStep c .disconnect { c with place := .isConnected } [.disconnect]
  | isConnected : c.place = .isConnected →
      ClientStep c .goOn { c with place := if c.isConnected then .disconnect else .stop } []
  | post (conn) : c.place = .disconnect → c.pConnection = some conn →
      ClientStep c .goOn { c with pConnection := some conn.disconnect.1, place := .stop } []
  | stop : c.place = .stop →
      ClientStep c .goOn { c with context := c.context.stop, place := .join } []
  | join (context) : c.place = .join → c.context.join = some context →
      ClientStep c .goOn { c with context, place := .release } []
  | release : c.place = .release → ClientStep c .goOn { c with
      pConnection := none
      released := c.pConnection.toList ++ c.released
      place := .outside } [.returned]
  | take (e) : Connection.isHandler e = true → ClientStep c (.take e) { c with handler := some e } []
  | finish (e conn r) : c.handler = some e → c.pConnection = some conn → conn.next e = some r →
      ClientStep c .finish { c with pConnection := some r.1, handler := none }
        (.ran e :: r.2.map .conn)
  | system (e conn r) : isSystem e = true → c.pConnection = some conn → conn.next e = some r →
      ClientStep c (.system e) { c with pConnection := some r.1 } (r.2.map .conn)
  | quit (b context) : c.context.quit b = some context → ClientStep c .quit { c with context } []

theorem onConnection_eq_some {c c' : ClientInterface T} {e o} (h : c.onConnection e = some (c', o)) :
    ∃ conn r, c.pConnection = some conn ∧ conn.next e = some r ∧
      c' = { c with pConnection := some r.1 } ∧ o = r.2.map .conn := by
  simp only [onConnection] at h
  split at h
  · cases h
  · rename_i conn hc
    obtain ⟨r, hr, he⟩ := Option.map_eq_some_iff.mp h
    cases he
    exact ⟨conn, r, hc, hr, rfl, rfl⟩

theorem next_clientStep {c c' : ClientInterface T} {e o} (hn : c.next e = some (c', o)) :
    ClientStep c e c' o := by
  unfold next at hn
  split at hn
  · cases hn
  · cases e with
    | connect attempt =>
        simp only at hn
        split at hn
        · rename_i hp
          obtain ⟨rfl, rfl⟩ := Prod.ext_iff.mp (Option.some.inj hn)
          exact .connect attempt hp
        · cases hn
    | send msg =>
        simp only at hn
        split at hn
        · rename_i hp
          obtain ⟨rfl, rfl⟩ := Prod.ext_iff.mp (Option.some.inj hn)
          exact .send msg hp
        · cases hn
    | disconnect =>
        simp only at hn
        split at hn <;> cases hn
        rename_i hp
        exact .disconnect hp
    | goOn =>
        simp only [goOn] at hn
        split at hn
        · cases hn
        · rename_i hp
          cases hn
          exact .isConnected hp
        · rename_i hp
          split at hn <;> cases hn
          rename_i conn hc
          exact .post conn hp hc
        · rename_i hp
          cases hn
          exact .stop hp
        · rename_i hp
          obtain ⟨context, hj, he⟩ := Option.map_eq_some_iff.mp hn
          cases he
          exact .join context hp hj
        · rename_i hp
          cases hn
          exact .release hp
    | take e =>
        simp only [take] at hn
        split at hn <;> cases hn
        rename_i ht
        exact .take e ht.2.2.1
    | finish =>
        simp only [finish] at hn
        split at hn
        · cases hn
        · rename_i e he
          obtain ⟨⟨c₁, o₁⟩, hc, heq⟩ := Option.map_eq_some_iff.mp hn
          cases heq
          obtain ⟨conn, r, hconn, hr, rfl, rfl⟩ := onConnection_eq_some hc
          exact .finish e conn r he hconn hr
    | system e =>
        simp only at hn
        split at hn
        · rename_i hs
          obtain ⟨conn, r, hconn, hr, rfl, rfl⟩ := onConnection_eq_some hn
          exact .system e conn r hs hconn hr
        · cases hn
    | quit =>
        simp only [quit] at hn
        split at hn
        · obtain ⟨context, hq, he⟩ := Option.map_eq_some_iff.mp hn
          cases he
          exact .quit _ context hq
        · cases hn

end ClientInterface

end AsioNetworking
