import AsioNetworking.Server

/-!
# A server and its clients (`net_client.hpp`)

One server and a family of clients, each with its own context thread. The bytes that one end of a
connection has put on the wire and the other end has not taken are part of the state: a read takes
the oldest of them, a write adds to them, and nothing is promised about when.
-/

namespace AsioNetworking

variable {T ι : Type}

/-! ## Clients -/

/-- A `client_interface` after `Connect`. Its `owned_message`s have no `remote`. -/
structure Client (T : Type) where
  connection : Connection T
  qMessagesIn : List (Message T)

namespace Client

variable [IdType T]

def connect : Client T := ⟨Connection.connected, []⟩

def isConnected (c : Client T) : Bool := c.connection.socketOpen

def setConn (r : Result T) (c : Client T) : Client T := ⟨r.1, c.qMessagesIn ++ pushes r.2⟩

def send (msg : Message T) (c : Client T) : Client T × List (Effect T) :=
  if c.isConnected then (c.setConn (c.connection.send msg), (c.connection.send msg).2) else (c, [])

end Client

/-! ## The system -/

structure System (T ι : Type) where
  server : Server T ι
  clients : ι → Client T
  /-- The bytes on their way to the server, for each client. -/
  up : ι → List UInt8
  /-- The bytes on their way to each client. -/
  down : ι → List UInt8

inductive SystemEvent (T ι : Type) where
  | server (e : ServerEvent T ι)
  /-- A handler of the client `i`, or a call other than `Send`. -/
  | client (i : ι) (e : Connection.Event T)
  | send (i : ι) (msg : Message T)
  /-- The client `i` calls `Incoming().pop_front()`. -/
  | pop (i : ι)
  deriving DecidableEq

inductive SystemEffect (T ι : Type) where
  | server (x : ServerEffect T ι)
  | client (i : ι) (x : Effect T)
  | sent (i : ι) (msg : Message T)
  | popped (i : ι) (msg : Message T)
  deriving DecidableEq

/-- The connection that the event happens at, when it may move bytes. -/
def ServerEvent.peer : ServerEvent T ι → Option ι
  | .conn i _ => some i
  | _ => none

/-- The effects `o` at one end of a connection take their bytes from `inp` and add theirs to `out`. -/
def transfer (o : List (Effect T)) (inp out : List UInt8) : Option (List UInt8 × List UInt8) :=
  if tookBytes o <+: inp then some (inp.drop (tookBytes o).length, out ++ putBytes o) else none

namespace System

variable [DecidableEq ι] [IdType T]

def init : System T ι where
  server := .init
  clients := fun _ => .connect
  up := fun _ => []
  down := fun _ => []

def setClient (i : ι) (c : Client T) (s : System T ι) : System T ι :=
  { s with clients := Function.update s.clients i c }

/-- A client can be accepted once it has reached the server. -/
def reached (s : System T ι) : ServerEvent T ι → Bool
  | .accept i _ _ _ => (s.clients i).connection.socketConnected
  | _ => true

def isSend : Connection.Event T → Bool
  | .send _ => true
  | _ => false

def next (s : System T ι) : SystemEvent T ι → Option (System T ι × List (SystemEffect T ι))
  | .server e =>
      if s.reached e then
        match s.server.next e with
        | none => none
        | some (server, o) =>
            match e.peer with
            | none => some ({ s with server }, o.map .server)
            | some i =>
                match transfer (Server.hist i o) (s.up i) (s.down i) with
                | none => none
                | some (up, down) => some ({ s with
                    server
                    up := Function.update s.up i up
                    down := Function.update s.down i down }, o.map .server)
      else none
  | .client i e =>
      if isSend e then none else
        match (s.clients i).connection.next e with
        | none => none
        | some r =>
            match transfer r.2 (s.down i) (s.up i) with
            | none => none
            | some (down, up) => some ({ s.setClient i ((s.clients i).setConn r) with
                up := Function.update s.up i up
                down := Function.update s.down i down }, r.2.map (.client i))
  | .send i msg =>
      let r := (s.clients i).send msg
      some (s.setClient i r.1, .sent i msg :: r.2.map (.client i))
  | .pop i =>
      match (s.clients i).qMessagesIn with
      | [] => none
      | msg :: q => some (s.setClient i { s.clients i with qMessagesIn := q }, [.popped i msg])

def machine (T ι : Type) [DecidableEq ι] [IdType T] :
    Mealy (System T ι) (SystemEvent T ι) (SystemEffect T ι) := ⟨next⟩

/-! ## Histories -/

def serverHist (h : List (SystemEffect T ι)) : List (ServerEffect T ι) :=
  h.filterMap fun
    | .server x => some x
    | _ => none

def clientHist (i : ι) (h : List (SystemEffect T ι)) : List (Effect T) :=
  h.filterMap fun
    | .client j x => if j = i then some x else none
    | _ => none

/-- The messages that the client `i` gave to `Send`. -/
def sent (i : ι) (h : List (SystemEffect T ι)) : List (Message T) :=
  h.filterMap fun
    | .sent j msg => if j = i then some msg else none
    | _ => none

def popped (i : ι) (h : List (SystemEffect T ι)) : List (Message T) :=
  h.filterMap fun
    | .popped j msg => if j = i then some msg else none
    | _ => none

/-- The history of the server's end of the connection of the client `i`. -/
def peerHist (i : ι) (h : List (SystemEffect T ι)) : List (Effect T) := Server.hist i (serverHist h)

end System

end AsioNetworking
