import AsioNetworking.Lib.Mealy
import AsioNetworking.Message

/-!
# Connections (`net_connection.hpp`)

A connection as a machine. Its state holds the members of `connection<T>` and what the context and
the socket still have to do for it: the posted tasks in FIFO order, the outstanding `async_connect`,
and the outstanding reads and writes. An event is a call from outside, the run of a posted task, or
a step of an outstanding operation; the handlers are those of the source.

An operation is `live` when the socket was open and connected at its start. Only a live operation
can succeed; closing the socket does not take back a success that is already on its way, but no
further byte goes out. Buffers are read at the start of a write: neither `m_nHandshakeOut` nor the
front of `m_qMessagesOut` changes while a write of it is outstanding.
-/

namespace AsioNetworking

/-! ## State -/

inductive Owner where
  | client | server
  deriving DecidableEq

inductive OpKind where
  | validation | header | body
  deriving DecidableEq

/-- An outstanding `async_read` of `size` bytes. -/
structure ReadOp where
  kind : OpKind
  size : Nat
  live : Bool
  deriving DecidableEq

/-- An outstanding `async_write` with the bytes that are not on the wire yet. -/
structure WriteOp where
  kind : OpKind
  rest : List UInt8
  live : Bool
  deriving DecidableEq

/-- The lambdas given to `asio::post` by `Send` and `Disconnect`. -/
inductive Task (T : Type) where
  | send (msg : Message T)
  | close
  deriving DecidableEq

structure Connection (T : Type) where
  nOwnerType : Owner
  id : UInt32
  socketOpen : Bool
  socketConnected : Bool
  qMessagesOut : List (Message T)
  msgTemporaryIn : Message T
  nHandshakeOut : UInt64
  nHandshakeIn : UInt64
  nHandshakeCheck : UInt64
  connecting : Bool
  posted : List (Task T)
  reads : List ReadOp
  writes : List WriteOp
  deriving DecidableEq

/-- The first component of an `owned_message`: `shared_from_this()` or `nullptr`. -/
inductive Remote where
  | this | null
  deriving DecidableEq

/-- What a step does besides changing the state: calls made on the connection, operations started
and finished, bytes put on and taken from the wire, and calls made by the connection. -/
inductive Effect (T : Type) where
  | send (msg : Message T)
  | run (msg : Message T)
  | startRead (kind : OpKind) (size : Nat)
  | took (kind : OpKind) (bytes : List UInt8)
  /-- A read fails after it took some bytes. -/
  | readFail (kind : OpKind) (bytes : List UInt8)
  | startWrite (kind : OpKind) (bytes : List UInt8)
  | put (kind : OpKind) (bytes : List UInt8)
  | wrote (kind : OpKind)
  | writeFail (kind : OpKind)
  | pop (msg : Message T)
  /-- `front()` or `pop_front()` of an empty `m_qMessagesOut`. -/
  | emptyQueue
  | push (remote : Remote) (msg : Message T)
  | onClientValidated
  /-- The answer read by a server connection is not `m_nHandshakeCheck`. -/
  | rejected
  deriving DecidableEq

/-- A new state and the effects of getting there. -/
abbrev Result (T : Type) := Connection T × List (Effect T)

def Result.andThen {T : Type} (r : Result T) (f : Connection T → Result T) : Result T :=
  ((f r.1).1, r.2 ++ (f r.1).2)

@[simp] theorem Result.andThen_fst {T : Type} (r : Result T) (f : Connection T → Result T) :
    (r.andThen f).1 = (f r.1).1 := rfl

@[simp] theorem Result.andThen_snd {T : Type} (r : Result T) (f : Connection T → Result T) :
    (r.andThen f).2 = r.2 ++ (f r.1).2 := rfl

def scramble (nInput : UInt64) : UInt64 :=
  let out := nInput ^^^ 0xDDFAC06302AD3
  (out &&& 0xADFCB27610439B) >>> 16 ||| (out &&& 0x3726327AD) <<< 16

/-- The 8 bytes of a `uint64_t` in memory. -/
def uint64Bytes (n : UInt64) : List UInt8 := LittleEndian.encode 8 n.toNat

/-- The `uint64_t` whose memory is filled with the bytes. -/
def uint64OfBytes (bs : List UInt8) : UInt64 := UInt64.ofNat (LittleEndian.decode bs)

def resize (bs : List UInt8) (n : Nat) : List UInt8 := bs.take n ++ List.replicate (n - bs.length) 0

namespace Connection

variable {T : Type} [IdType T]

/-! ## Starting operations -/

def startRead (kind : OpKind) (size : Nat) (c : Connection T) : Result T :=
  ({ c with reads := c.reads ++ [⟨kind, size, c.socketOpen && c.socketConnected⟩] },
    [.startRead kind size])

def startWrite (kind : OpKind) (bytes : List UInt8) (c : Connection T) : Result T :=
  ({ c with writes := c.writes ++ [⟨kind, bytes, c.socketOpen && c.socketConnected⟩] },
    [.startWrite kind bytes])

/-- `m_oSocket.close()`. -/
def close (c : Connection T) : Connection T := { c with socketOpen := false }

def readHeader (c : Connection T) : Result T := c.startRead .header (sizeofHeader T)

def readBody (c : Connection T) : Result T := c.startRead .body c.msgTemporaryIn.body.length

def readValidation (c : Connection T) : Result T := c.startRead .validation 8

section

variable (kind : OpKind) (size : Nat) (bytes : List UInt8) (c : Connection T)

omit [IdType T]

@[simp] theorem startRead_fst : (c.startRead kind size).1 = { c with
    reads := c.reads ++ [⟨kind, size, c.socketOpen && c.socketConnected⟩] } := rfl

@[simp] theorem startRead_snd : (c.startRead kind size).2 = [.startRead kind size] := rfl

@[simp] theorem startWrite_fst : (c.startWrite kind bytes).1 = { c with
    writes := c.writes ++ [⟨kind, bytes, c.socketOpen && c.socketConnected⟩] } := rfl

@[simp] theorem startWrite_snd : (c.startWrite kind bytes).2 = [.startWrite kind bytes] := rfl

end

section

variable (c : Connection T)

@[simp] theorem readHeader_fst : c.readHeader.1 = { c with
    reads := c.reads ++ [⟨.header, sizeofHeader T, c.socketOpen && c.socketConnected⟩] } := rfl

@[simp] theorem readHeader_snd : c.readHeader.2 = [.startRead .header (sizeofHeader T)] := rfl

omit [IdType T]

@[simp] theorem readBody_fst : c.readBody.1 = { c with
    reads := c.reads ++
      [⟨.body, c.msgTemporaryIn.body.length, c.socketOpen && c.socketConnected⟩] } := rfl

@[simp] theorem readBody_snd :
    c.readBody.2 = [.startRead .body c.msgTemporaryIn.body.length] := rfl

@[simp] theorem readValidation_fst : c.readValidation.1 = { c with
    reads := c.reads ++ [⟨.validation, 8, c.socketOpen && c.socketConnected⟩] } := rfl

@[simp] theorem readValidation_snd : c.readValidation.2 = [.startRead .validation 8] := rfl

end

def writeHeader (c : Connection T) : Result T :=
  match c.qMessagesOut with
  | [] => (c, [.emptyQueue])
  | msg :: _ => c.startWrite .header msg.header.toBytes

def writeBody (c : Connection T) : Result T :=
  match c.qMessagesOut with
  | [] => (c, [.emptyQueue])
  | msg :: _ => c.startWrite .body msg.body

def writeValidation (c : Connection T) : Result T :=
  c.startWrite .validation (uint64Bytes c.nHandshakeOut)

omit [IdType T] in
@[simp] theorem writeValidation_fst (c : Connection T) : c.writeValidation.1 = { c with
    writes := c.writes ++ [⟨.validation, uint64Bytes c.nHandshakeOut,
      c.socketOpen && c.socketConnected⟩] } := rfl

omit [IdType T] in
@[simp] theorem writeValidation_snd (c : Connection T) :
    c.writeValidation.2 = [.startWrite .validation (uint64Bytes c.nHandshakeOut)] := rfl

/-! ## Handlers -/

def addToIncomingMessageQueue (c : Connection T) : Result T :=
  let remote := match c.nOwnerType with
    | .server => Remote.this
    | .client => Remote.null
  Result.andThen (c, [.push remote c.msgTemporaryIn]) readHeader

/-- The handler of `ReadHeader`, without error. -/
def onReadHeader (bs : List UInt8) (c : Connection T) : Result T :=
  let c := { c with msgTemporaryIn := { c.msgTemporaryIn with header := .ofBytes bs } }
  if c.msgTemporaryIn.header.size > 8 then
    let body := resize c.msgTemporaryIn.body (c.msgTemporaryIn.header.size - 8).toNat
    readBody { c with msgTemporaryIn := { c.msgTemporaryIn with body } }
  else
    c.addToIncomingMessageQueue

def onReadBody (bs : List UInt8) (c : Connection T) : Result T :=
  addToIncomingMessageQueue { c with msgTemporaryIn := { c.msgTemporaryIn with body := bs } }

def onReadValidation (bs : List UInt8) (c : Connection T) : Result T :=
  let c := { c with nHandshakeIn := uint64OfBytes bs }
  match c.nOwnerType with
  | .client => writeValidation { c with nHandshakeOut := scramble c.nHandshakeIn }
  | .server =>
      if c.nHandshakeIn = c.nHandshakeCheck then
        Result.andThen (c, [.onClientValidated]) readHeader
      else
        (c.close, [.rejected])

def onRead (kind : OpKind) (bs : List UInt8) (c : Connection T) : Result T :=
  match kind with
  | .validation => c.onReadValidation bs
  | .header => c.onReadHeader bs
  | .body => c.onReadBody bs

/-- `pop_front` and, when another message is waiting, its header. -/
def popFront (c : Connection T) : Result T :=
  match c.qMessagesOut with
  | [] => (c, [.emptyQueue])
  | msg :: rest =>
      let c := { c with qMessagesOut := rest }
      if rest.isEmpty then (c, [.pop msg]) else Result.andThen (c, [.pop msg]) writeHeader

def onWriteHeader (c : Connection T) : Result T :=
  match c.qMessagesOut with
  | [] => (c, [.emptyQueue])
  | msg :: _ => if msg.body.length > 0 then c.writeBody else c.popFront

def onWriteBody (c : Connection T) : Result T := c.popFront

def onWriteValidation (c : Connection T) : Result T :=
  match c.nOwnerType with
  | .client => c.readHeader
  | .server => (c, [])

def onWrite (kind : OpKind) (c : Connection T) : Result T :=
  match kind with
  | .validation => c.onWriteValidation
  | .header => c.onWriteHeader
  | .body => c.onWriteBody

def sendTask (msg : Message T) (c : Connection T) : Result T :=
  let bWritingMessages := !c.qMessagesOut.isEmpty
  let c := { c with qMessagesOut := c.qMessagesOut ++ [msg] }
  if !bWritingMessages then Result.andThen (c, [.run msg]) writeHeader else (c, [.run msg])

def runTask (task : Task T) (c : Connection T) : Result T :=
  match task with
  | .send msg => c.sendTask msg
  | .close => (c.close, [])

/-! ## Calls -/

/-- The constructor. `now` is the clock value that a server connection uses as its nonce. -/
def construct (parent : Owner) (socketOpen socketConnected : Bool) (now : UInt64) :
    Connection T where
  nOwnerType := parent
  id := 0
  socketOpen := socketOpen
  socketConnected := socketConnected
  qMessagesOut := []
  msgTemporaryIn := .default
  nHandshakeOut := match parent with | .server => now | .client => 0
  nHandshakeIn := 0
  nHandshakeCheck := match parent with | .server => scramble now | .client => 0
  connecting := false
  posted := []
  reads := []
  writes := []

def send (msg : Message T) (c : Connection T) : Result T :=
  ({ c with posted := c.posted ++ [.send msg] }, [.send msg])

def sendAll : List (Message T) → Connection T → Result T
  | [], c => (c, [])
  | msg :: msgs, c => (c.send msg).andThen (sendAll msgs)

def disconnect (c : Connection T) : Result T :=
  if c.socketOpen then ({ c with posted := c.posted ++ [.close] }, []) else (c, [])

/-- `ConnectToServer`: `async_connect` opens the socket at once. -/
def connectToServer (c : Connection T) : Connection T :=
  match c.nOwnerType with
  | .client => { c with connecting := true, socketOpen := true }
  | .server => c

def connectToClient (uid : UInt32) (c : Connection T) : Result T :=
  match c.nOwnerType with
  | .client => (c, [])
  | .server =>
      if c.socketOpen then (writeValidation { c with id := uid }).andThen readValidation
      else (c, [])

/-! ## The machine -/

inductive Event (T : Type) where
  | send (msg : Message T)
  | disconnect
  | runTask
  /-- The peer's system accepts; the handler of `async_connect` is still to run. -/
  | established
  | onConnect (ok : Bool)
  /-- The handler of the `j`-th outstanding read, which got `bs`. -/
  | readOk (j : Nat) (bs : List UInt8)
  /-- The handler of the `j`-th outstanding read, which got only `bs`. -/
  | readFail (j : Nat) (bs : List UInt8)
  /-- The `j`-th outstanding write puts its next `k` bytes on the wire. -/
  | put (j k : Nat)
  | writeOk (j : Nat)
  | writeFail (j : Nat)
  deriving DecidableEq

def next (c : Connection T) : Event T → Option (Result T)
  | .send msg => some (c.send msg)
  | .disconnect => some c.disconnect
  | .runTask =>
      match c.posted with
      | [] => none
      | task :: tasks => some (runTask task { c with posted := tasks })
  | .established =>
      if c.connecting && c.socketOpen then some ({ c with socketConnected := true }, []) else none
  | .onConnect ok =>
      if c.connecting then
        let c := { c with connecting := false }
        if ok then if c.socketConnected then some c.readValidation else none
        else some (c.close, [])
      else none
  | .readOk j bs =>
      match c.reads[j]? with
      | none => none
      | some op =>
          if op.live ∧ bs.length = op.size then
            some (Result.andThen ({ c with reads := c.reads.eraseIdx j }, [.took op.kind bs])
              (onRead op.kind bs))
          else none
  | .readFail j bs =>
      match c.reads[j]? with
      | none => none
      | some op =>
          if bs = [] ∨ op.live ∧ bs.length < op.size then
            some (close { c with reads := c.reads.eraseIdx j }, [.readFail op.kind bs])
          else none
  | .put j k =>
      match c.writes[j]? with
      | none => none
      | some op =>
          if op.live ∧ c.socketOpen ∧ k ≤ op.rest.length then
            some ({ c with writes := c.writes.set j { op with rest := op.rest.drop k } },
              [.put op.kind (op.rest.take k)])
          else none
  | .writeOk j =>
      match c.writes[j]? with
      | none => none
      | some op =>
          if op.live ∧ op.rest = [] then
            some (Result.andThen ({ c with writes := c.writes.eraseIdx j }, [.wrote op.kind])
              (onWrite op.kind))
          else none
  | .writeFail j =>
      match c.writes[j]? with
      | none => none
      | some op => some (close { c with writes := c.writes.eraseIdx j }, [.writeFail op.kind])

/-- A posted task or an operation of the connection has not run its handler. -/
def busy (c : Connection T) : Bool :=
  !c.posted.isEmpty || !c.reads.isEmpty || !c.writes.isEmpty || c.connecting

def machine (T : Type) [IdType T] : Mealy (Connection T) (Event T) (Effect T) := ⟨next⟩

/-- The connection of a client after `ConnectToServer`. -/
def connected : Connection T := connectToServer (construct .client false false 0)

/-- A server connection after the accept handler: `sends` are the messages that
`OnClientConnection` gave to `client->Send`, `approve` is its verdict. A denied connection loses its
only `shared_ptr` when the handler returns, and its socket closes with it. -/
def accepted (nonce : UInt64) (sends : List (Message T)) (approve : Bool) (uid : UInt32) :
    Result T :=
  (sendAll sends (construct .server true true nonce)).andThen fun c =>
    if approve then c.connectToClient uid else (c.close, [])

inductive Start : Connection T → List (Effect T) → Prop where
  | client : Start connected []
  | server (nonce : UInt64) (sends : List (Message T)) (approve : Bool) (uid : UInt32) :
      Start (accepted nonce sends approve uid).1 (accepted nonce sends approve uid).2

end Connection

end AsioNetworking
