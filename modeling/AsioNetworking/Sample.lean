import AsioNetworking.System

/-!
# The sample (`SimpleServer.cpp`, `SimpleClient.cpp`)

The server greets each client, bounces its pings back, and tells the others when a client asks it to.
The clients send what their user's keys ask for.
-/

namespace AsioNetworking

/-! ## Message types -/

/-- `CustomMsgTypes`: an enumeration over `uint32_t`, which other numbers on the wire fit into too. -/
inductive CustomMsgTypes where
  | serverAccept | serverDeny | serverPing | messageAll | serverMessage
  | other (value : UInt32) (unnamed : 5 ≤ value)
  deriving DecidableEq

namespace CustomMsgTypes

def toUInt32 : CustomMsgTypes → UInt32
  | .serverAccept => 0
  | .serverDeny => 1
  | .serverPing => 2
  | .messageAll => 3
  | .serverMessage => 4
  | .other value _ => value

def ofUInt32 (n : UInt32) : CustomMsgTypes :=
  if h : 5 ≤ n then .other n h
  else if n = 0 then .serverAccept
  else if n = 1 then .serverDeny
  else if n = 2 then .serverPing
  else if n = 3 then .messageAll
  else .serverMessage

@[simp] theorem ofUInt32_toUInt32 (id : CustomMsgTypes) : ofUInt32 id.toUInt32 = id := by
  cases id with
  | other value h => exact dif_pos h
  | _ => rfl

end CustomMsgTypes

/-- The 4 bytes of a `uint32_t` in memory. -/
def uint32Bytes (n : UInt32) : List UInt8 := LittleEndian.encode 4 n.toNat

instance : IdType CustomMsgTypes where
  size := 4
  toBytes id := IdType.toBytes id.toUInt32
  ofBytes bs := .ofUInt32 (IdType.ofBytes (T := UInt32) bs)
  zero := .serverAccept
  length_toBytes _ := LittleEndian.length_encode _ _
  ofBytes_toBytes id := by
    rw [IdType.ofBytes_toBytes (T := UInt32), CustomMsgTypes.ofUInt32_toUInt32]

/-- A freshly declared message whose `header.id` is set. -/
def Message.withId (id : CustomMsgTypes) : Message CustomMsgTypes :=
  let msg : Message CustomMsgTypes := .default
  { msg with header := { msg.header with id } }

/-! ## `CustomServer` -/

namespace CustomServer

/-- `OnClientConnection`: the messages given to `client->Send`, and the verdict. -/
def onClientConnection : List (Message CustomMsgTypes) × Bool := ([.withId .serverAccept], true)

/-- What `OnMessage` sends to the other clients on behalf of the client with the id `uid`. -/
def msgOut (uid : UInt32) : Message CustomMsgTypes :=
  (Message.withId .serverMessage).push (uint32Bytes uid)

/-- `OnMessage` for a client with the id `uid`. -/
def onMessage (uid : UInt32) (msg : Message CustomMsgTypes) : List (Call CustomMsgTypes) :=
  match msg.header.id with
  | .serverPing => [.send msg]
  | .messageAll => [.messageAllClients (msgOut uid) true]
  | _ => []

variable {ι : Type}

/-- The calls that `OnMessage` makes when the user thread passes it the front of `m_qMessagesIn`. -/
def calls (s : Server CustomMsgTypes ι) : List (Call CustomMsgTypes) :=
  match s.user, s.qMessagesIn with
  | .loop (_ + 1) :: _, m :: _ =>
      match m.remote with
      | none => []
      | some i =>
          match s.conns i with
          | none => []
          | some c => onMessage c.id m.msg
  | _, _ => []

/-- The steps of a `CustomServer` whose `main` calls `update()` again and again: the hooks do what
they do, and nobody else calls `Send`, `Disconnect` or `MessageAllClients`. -/
def Hooks (s : Server CustomMsgTypes ι) : ServerEvent CustomMsgTypes ι → Prop
  | .accept _ _ sends approve => (sends, approve) = onClientConnection
  | .conn _ e => Server.isCall e = false
  | .update maxMessages bWait => maxMessages = -1 ∧ bWait = false
  | .messageAllClients _ => False
  | .user cs => cs = calls s

instance (s : Server CustomMsgTypes ι) : DecidablePred (Hooks s)
  | .accept _ _ _ _ => inferInstanceAs (Decidable (_ = _))
  | .conn _ _ => inferInstanceAs (Decidable (_ = _))
  | .update _ _ => inferInstanceAs (Decidable (_ ∧ _))
  | .messageAllClients _ => .isFalse fun h => h
  | .user _ => inferInstanceAs (Decidable (_ = _))

end CustomServer

/-! ## `CustomClient` -/

namespace CustomClient

/-- What `PingServer` sends at the time `timeNow`. -/
def pingServer (timeNow : UInt64) : Message CustomMsgTypes :=
  (Message.withId .serverPing).push (uint64Bytes timeNow)

def messageAll : Message CustomMsgTypes := .withId .messageAll

/-- The messages that the keys '1' and '2' send. -/
inductive Pressed : Message CustomMsgTypes → Prop
  | one (timeNow : UInt64) : Pressed (pingServer timeNow)
  | two : Pressed messageAll

theorem pressed_iff {msg : Message CustomMsgTypes} :
    Pressed msg ↔ msg = messageAll ∨ msg = pingServer (uint64OfBytes msg.body) := by
  constructor
  · intro hp
    cases hp with
    | one timeNow =>
        right
        have hb : (pingServer timeNow).body = uint64Bytes timeNow := rfl
        rw [hb, Connection.uint64OfBytes_uint64Bytes]
    | two => exact Or.inl rfl
  · intro h
    rcases h with h | h
    · exact h ▸ .two
    · exact h ▸ .one _

instance : DecidablePred Pressed := fun _ => decidable_of_iff _ pressed_iff.symm

/-- How many bytes `main` takes with `>>` from a message with this id. -/
def pulled : CustomMsgTypes → Nat
  | .serverPing => 8
  | .serverMessage => 4
  | _ => 0

end CustomClient

end AsioNetworking
