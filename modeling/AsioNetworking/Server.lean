import AsioNetworking.Connection.Wire
import Mathlib.Logic.Function.Basic

/-!
# The server (`net_server.hpp`)

A server as a machine. The context thread runs the accept handler and the handlers of the
connections; each handler is one step. The user thread runs `update` and `MessageAllClients`; what it
still has to do is a stack of tasks, and each step takes the top one, so that handlers of the context
thread may come between any two messages and between any two clients of a broadcast.

The connections are indexed by an arbitrary type `ι`. A connection that loses its last `shared_ptr`
keeps its entry in `conns`: what its posted tasks and its operations do then is a use after free.
-/

namespace AsioNetworking

variable {T ι : Type}

/-! ## State -/

structure OwnedMessage (T ι : Type) where
  remote : Option ι
  msg : Message T
  deriving DecidableEq

/-- What `OnMessage` may do with its `client`. -/
inductive Call (T : Type) where
  | send (msg : Message T)
  | disconnect
  /-- `MessageAllClients(msg, client)`, or `MessageAllClients(msg)`. -/
  | messageAllClients (msg : Message T) (ignore : Bool)
  deriving DecidableEq

/-- What the user thread still has to do. -/
inductive UserTask (T ι : Type) where
  | wait
  /-- The loop of `update`, with the number of rounds left. -/
  | loop (left : Nat)
  /-- A call that the running `OnMessage` is going to make. -/
  | call (client : Option ι) (call : Call T)
  /-- The end of a round of `update`: its `owned_message` is destroyed. -/
  | release (remote : Option ι)
  /-- The loop of `MessageAllClients` at the `k`-th of `n` clients. -/
  | visit (k n : Nat) (msg : Message T) (pIgnoreClient : Option ι) (bInvalidConnectionsExist : Bool)
  deriving DecidableEq

structure Server (T ι : Type) where
  conns : ι → Option (Connection T)
  dqConnections : List (Option ι)
  qMessagesIn : List (OwnedMessage T ι)
  nIDCounter : UInt32
  user : List (UserTask T ι)

inductive ServerEffect (T ι : Type) where
  | accepted (i : ι) (nonce : UInt64) (sends : List (Message T)) (approve : Bool) (uid : UInt32)
  | conn (i : ι) (x : Effect T)
  | onMessage (remote : Option ι) (msg : Message T)
  | onClientDisconnect (client : Option ι)
  deriving DecidableEq

inductive ServerEvent (T ι : Type) where
  /-- The accept handler: the connection `i` is made with the nonce `nonce`; `OnClientConnection`
  gives `sends` to `client->Send` and returns `approve`. -/
  | accept (i : ι) (nonce : UInt64) (sends : List (Message T)) (approve : Bool)
  /-- A handler of the connection `i`, or a call by code that holds a `shared_ptr` to it. -/
  | conn (i : ι) (e : Connection.Event T)
  | update (maxMessages : UInt64) (bWait : Bool)
  | messageAllClients (msg : Message T)
  /-- The user thread goes on; when this calls `OnMessage`, it is going to make the calls `calls`. -/
  | user (calls : List (Call T))
  deriving DecidableEq

namespace Server

variable [DecidableEq ι] [IdType T]

def init : Server T ι where
  conns := fun _ => none
  dqConnections := []
  qMessagesIn := []
  nIDCounter := 10000
  user := []

/-! ## Owners -/

def held : UserTask T ι → Option ι
  | .release remote => remote
  | _ => none

/-- The number of `shared_ptr`s to the connection: in `m_dqConnections`, in `m_qMessagesIn`, and in
the `owned_message` of the running round of `update`. -/
def owners (s : Server T ι) (i : ι) : Nat :=
  s.dqConnections.count (some i) + (s.qMessagesIn.map (·.remote)).count (some i) +
    (s.user.map held).count (some i)

/-! ## Steps -/

/-- The messages that the effects of the connection `i` add to `m_qMessagesIn`. -/
def owned (i : ι) (o : List (Effect T)) : List (OwnedMessage T ι) :=
  o.filterMap fun
    | .push .this msg => some ⟨some i, msg⟩
    | .push .null msg => some ⟨none, msg⟩
    | _ => none

def setConn (i : ι) (r : Result T) (s : Server T ι) : Server T ι :=
  { s with
    conns := Function.update s.conns i (some r.1)
    qMessagesIn := s.qMessagesIn ++ owned i r.2 }

def onConn (i : ι) (e : Connection.Event T) (s : Server T ι) :
    Option (Server T ι × List (ServerEffect T ι)) :=
  match s.conns i with
  | none => none
  | some c =>
      match c.next e with
      | none => none
      | some r => some (s.setConn i r, r.2.map (.conn i))

def accept (i : ι) (nonce : UInt64) (sends : List (Message T)) (approve : Bool)
    (s : Server T ι) : Server T ι × List (ServerEffect T ι) :=
  let r := Connection.accepted nonce sends approve s.nIDCounter
  ({ s with
      conns := Function.update s.conns i (some r.1)
      dqConnections := if approve then s.dqConnections ++ [some i] else s.dqConnections
      nIDCounter := if approve then s.nIDCounter + 1 else s.nIDCounter },
    .accepted i nonce sends approve s.nIDCounter :: r.2.map (.conn i))

/-- One round of the loop of `MessageAllClients`, at a client that is there. -/
def visit (k n : Nat) (msg : Message T) (pIgnoreClient : Option ι) (bInvalid : Bool)
    (client : Option ι) (s : Server T ι) : Option (Server T ι × List (ServerEffect T ι)) :=
  let invalid := ({ s with
      dqConnections := s.dqConnections.set k none
      user := .visit (k + 1) n msg pIgnoreClient true :: s.user }, [.onClientDisconnect client])
  match client with
  | none => some invalid
  | some i =>
      match s.conns i with
      | none => none
      | some c =>
          if c.socketOpen then
            let s := { s with user := .visit (k + 1) n msg pIgnoreClient bInvalid :: s.user }
            if client ≠ pIgnoreClient then s.onConn i (.send msg) else some (s, [])
          else some invalid

/-- The user thread takes the task, which is off the stack already. -/
def runUser (calls : List (Call T)) (task : UserTask T ι) (s : Server T ι) :
    Option (Server T ι × List (ServerEffect T ι)) :=
  match task with
  | .wait => if s.qMessagesIn.isEmpty then none else some (s, [])
  | .loop 0 => some (s, [])
  | .loop (left + 1) =>
      match s.qMessagesIn with
      | [] => some (s, [])
      | m :: q => some ({ s with
          qMessagesIn := q
          user := calls.map (.call m.remote) ++ .release m.remote :: .loop left :: s.user },
          [.onMessage m.remote m.msg])
  | .call client (.messageAllClients msg ignore) => some ({ s with
      user := .visit 0 s.dqConnections.length msg (if ignore then client else none) false ::
        s.user }, [])
  | .call (some i) (.send msg) => s.onConn i (.send msg)
  | .call (some i) .disconnect => s.onConn i .disconnect
  | .call none _ => none
  | .release _ => some (s, [])
  | .visit k n msg pIgnoreClient bInvalid =>
      if k < n then
        match s.dqConnections[k]? with
        | none => none
        | some client => s.visit k n msg pIgnoreClient bInvalid client
      else some ({ s with
        dqConnections := if bInvalid then s.dqConnections.filter (·.isSome) else s.dqConnections },
        [])

/-- A call, which only code with a `shared_ptr` can make. -/
def isCall : Connection.Event T → Bool
  | .send _ | .disconnect => true
  | _ => false

def next (s : Server T ι) : ServerEvent T ι → Option (Server T ι × List (ServerEffect T ι))
  | .accept i nonce sends approve =>
      if (s.conns i).isNone then some (s.accept i nonce sends approve) else none
  | .conn i e => if isCall e ∧ s.owners i = 0 then none else s.onConn i e
  | .update maxMessages bWait =>
      if s.user.isEmpty then
        some ({ s with user := (if bWait then [.wait] else []) ++ [.loop maxMessages.toNat] }, [])
      else none
  | .messageAllClients msg =>
      if s.user.isEmpty then
        some ({ s with user := [.visit 0 s.dqConnections.length msg none false] }, [])
      else none
  | .user calls =>
      match s.user with
      | [] => none
      | task :: tasks => runUser calls task { s with user := tasks }

def machine (T ι : Type) [DecidableEq ι] [IdType T] :
    Mealy (Server T ι) (ServerEvent T ι) (ServerEffect T ι) := ⟨next⟩

/-! ## Histories -/

def hist (i : ι) (h : List (ServerEffect T ι)) : List (Effect T) :=
  h.filterMap fun
    | .conn j x => if j = i then some x else none
    | _ => none

/-- The messages in `m_qMessagesIn` that are tagged with the connection `i`. -/
def queued (i : ι) (s : Server T ι) : List (Message T) :=
  (s.qMessagesIn.filter (·.remote = some i)).map (·.msg)

/-- The nonces that the connection `i` was constructed with. -/
def nonces (i : ι) (h : List (ServerEffect T ι)) : List UInt64 :=
  h.filterMap fun
    | .accepted j nonce _ _ _ => if j = i then some nonce else none
    | _ => none

/-- The messages passed to `OnMessage` with the connection `i` as `remote`. -/
def onMessages (i : ι) (h : List (ServerEffect T ι)) : List (Message T) :=
  h.filterMap fun
    | .onMessage remote msg => if remote = some i then some msg else none
    | _ => none

end Server

end AsioNetworking
