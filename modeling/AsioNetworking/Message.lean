import AsioNetworking.Lib.Framing
import AsioNetworking.Lib.LittleEndian

/-!
# Messages (`net_message.hpp`)

A message is a header (an id of the user's type `T` and a 32-bit size) and a body of bytes. On the
wire it is the memory of the header followed by the body. The reader cuts the stream into frames
by `header.size` alone, so the frames of a stream and the messages it makes of them are defined
apart (`frameFormat`, `receive`).
-/

namespace AsioNetworking

open Framing

/-! ## The id type -/

/-- What the templates use of the id type `T`: `sizeof(T)`, the bytes of a value, the value that
given bytes are read as, and `T{}`. -/
class IdType (T : Type) where
  size : Nat
  toBytes : T → List UInt8
  ofBytes : List UInt8 → T
  zero : T
  length_toBytes : ∀ x, (toBytes x).length = size
  ofBytes_toBytes : ∀ x, ofBytes (toBytes x) = x

instance : IdType UInt32 where
  size := 4
  toBytes x := LittleEndian.encode 4 x.toNat
  ofBytes bs := UInt32.ofNat (LittleEndian.decode bs)
  zero := 0
  length_toBytes _ := LittleEndian.length_encode _ _
  ofBytes_toBytes x := by
    have := x.toNat_lt
    rw [LittleEndian.decode_encode 4 _ (by omega), UInt32.ofNat_toNat]

/-- The least multiple of `a` that is not below `n`: where C++ places a member aligned to `a`. -/
def alignUp (n a : Nat) : Nat := (n + a - 1) / a * a

theorem le_alignUp (n : Nat) {a : Nat} (ha : 0 < a) : n ≤ alignUp n a := by
  have h := Nat.div_add_mod (n + a - 1) a
  have hm := Nat.mod_lt (n + a - 1) ha
  rw [alignUp, Nat.mul_comm]
  omega

/-- `offsetof(message_header<T>, size)`. -/
def sizeOffset (T : Type) [IdType T] : Nat := alignUp (IdType.size T) 4

/-- `sizeof(message_header<T>)`. -/
def sizeofHeader (T : Type) [IdType T] : Nat := alignUp (sizeOffset T + 4) (max (IdType.size T) 4)

theorem size_le_sizeOffset (T : Type) [IdType T] : IdType.size T ≤ sizeOffset T :=
  le_alignUp _ (by decide)

theorem sizeOffset_le_sizeofHeader (T : Type) [IdType T] : sizeOffset T + 4 ≤ sizeofHeader T :=
  le_alignUp _ (by omega)

/-- A 4-byte id makes the header the 8 bytes that `ReadHeader` subtracts. -/
theorem sizeofHeader_of_size_eq_four {T : Type} [IdType T] (h : IdType.size T = 4) :
    sizeofHeader T = 8 := by
  simp [sizeofHeader, sizeOffset, alignUp, h]

/-! ## Headers and messages -/

/-- `message_header<T>`. -/
@[ext]
structure MessageHeader (T : Type) where
  id : T
  size : UInt32
  deriving DecidableEq

/-- `message<T>`. -/
@[ext]
structure Message (T : Type) where
  header : MessageHeader T
  body : List UInt8
  deriving DecidableEq

variable {T : Type} [IdType T]

/-- `message_header<T> header{}`. -/
def MessageHeader.default : MessageHeader T := ⟨IdType.zero, 0⟩

/-- A freshly declared `message<T>`. -/
def Message.default : Message T := ⟨.default, []⟩

/-- The memory of the header. The padding around `size` is written as zeros; no reader looks at it. -/
def MessageHeader.toBytes (h : MessageHeader T) : List UInt8 :=
  IdType.toBytes h.id ++ List.replicate (sizeOffset T - IdType.size T) 0 ++
    LittleEndian.encode 4 h.size.toNat ++ List.replicate (sizeofHeader T - (sizeOffset T + 4)) 0

/-- The header that `async_read` leaves in memory when it has filled it with `bs`. -/
def MessageHeader.ofBytes (bs : List UInt8) : MessageHeader T :=
  ⟨IdType.ofBytes (bs.take (IdType.size T)),
    UInt32.ofNat (LittleEndian.decode ((bs.drop (sizeOffset T)).take 4))⟩

@[simp] theorem MessageHeader.length_toBytes (h : MessageHeader T) :
    h.toBytes.length = sizeofHeader T := by
  have h₁ := size_le_sizeOffset T
  have h₂ := sizeOffset_le_sizeofHeader T
  simp only [toBytes, List.length_append, IdType.length_toBytes, List.length_replicate,
    LittleEndian.length_encode]
  omega

@[simp] theorem MessageHeader.ofBytes_toBytes (h : MessageHeader T) :
    MessageHeader.ofBytes h.toBytes = h := by
  have hid : h.toBytes.take (IdType.size T) = IdType.toBytes h.id := by
    simp only [toBytes, List.append_assoc]
    exact List.take_left' (IdType.length_toBytes _)
  have hpad : (IdType.toBytes h.id ++
      List.replicate (sizeOffset T - IdType.size T) (0 : UInt8)).length = sizeOffset T := by
    have := size_le_sizeOffset T
    simp only [List.length_append, IdType.length_toBytes, List.length_replicate]; omega
  have hsize : (h.toBytes.drop (sizeOffset T)).take 4 = LittleEndian.encode 4 h.size.toNat := by
    simp only [toBytes, List.append_assoc]
    rw [← List.append_assoc, List.drop_left' hpad]
    exact List.take_left' (LittleEndian.length_encode _ _)
  have hlt := h.size.toNat_lt
  simp only [ofBytes, hid, hsize, IdType.ofBytes_toBytes,
    LittleEndian.decode_encode 4 h.size.toNat (by omega), UInt32.ofNat_toNat]

namespace Message

/-- `message::size()`. -/
def size (m : Message T) : Nat := sizeofHeader T + m.body.length

/-- `operator<<` for a value with the bytes `data`. -/
def push (msg : Message T) (data : List UInt8) : Message T :=
  let msg := { msg with body := msg.body ++ data }
  { msg with header := { msg.header with size := UInt32.ofNat msg.size } }

/-- `operator>>` for a value of `k` bytes; `none` when the body has not so many. -/
def pull (msg : Message T) (k : Nat) : Option (List UInt8 × Message T) :=
  if k ≤ msg.body.length then
    let i := msg.body.length - k
    let data := msg.body.drop i
    let msg := { msg with body := msg.body.take i }
    some (data, { msg with header := { msg.header with size := UInt32.ofNat msg.size } })
  else none

theorem isSome_pull {msg : Message T} {k : Nat} : (msg.pull k).isSome ↔ k ≤ msg.body.length := by
  unfold pull
  split
  · rename_i hk
    exact iff_of_true rfl hk
  · rename_i hk
    exact iff_of_false (by simp) hk

/-- What `WriteHeader` and `WriteBody` put on the wire for the message. -/
def toBytes (m : Message T) : List UInt8 := m.header.toBytes ++ m.body

/-- The declared length agrees with the body: the size of header and body, or a default header
with an empty body. -/
def Declared (m : Message T) : Prop :=
  m.body.length < 2 ^ 32 - 8 ∧
    (m.header.size.toNat = 8 + m.body.length ∨ m.header.size = 0 ∧ m.body = [])

instance (m : Message T) : Decidable m.Declared := inferInstanceAs (Decidable (_ ∧ _))

end Message

/-! ## The frames of a stream -/

/-- How the reader cuts the stream: a header, then `size - 8` bytes of body when `size > 8`. -/
def frameFormat (T : Type) [IdType T] : Format UInt8 where
  headerLen := sizeofHeader T
  headerLen_pos := by have := sizeOffset_le_sizeofHeader T; omega
  bodyLen bs := (MessageHeader.ofBytes (T := T) bs).size.toNat - 8

/-- The header of a frame. -/
def frameHeader (f : Frame (frameFormat T)) : MessageHeader T := .ofBytes f.header

theorem length_frame_body (f : Frame (frameFormat T)) :
    f.body.length = (frameHeader f).size.toNat - 8 := f.body_length

/-- The messages the reader makes of the frames. `body` is the body left in the temporary message
by earlier frames: a frame without a body does not clear it. -/
def receive (body : List UInt8) : List (Frame (frameFormat T)) → List (Message T)
  | [] => []
  | f :: fs =>
      let body' := if (frameHeader f).size > 8 then f.body else body
      ⟨frameHeader f, body'⟩ :: receive body' fs

def carried (body : List UInt8) : List (Frame (frameFormat T)) → List UInt8
  | [] => body
  | f :: fs => carried (if (frameHeader f).size > 8 then f.body else body) fs

/-- The headers do not depend on the body left over. -/
@[simp] theorem map_header_receive (body : List UInt8) (fs : List (Frame (frameFormat T))) :
    (receive body fs).map (·.header) = fs.map frameHeader := by
  induction fs generalizing body with
  | nil => rfl
  | cons f fs ih => simp only [receive, List.map_cons, ih]

theorem receive_append (body : List UInt8) (fs gs : List (Frame (frameFormat T))) :
    receive body (fs ++ gs) = receive body fs ++ receive (carried body fs) gs := by
  induction fs generalizing body with
  | nil => rfl
  | cons f fs ih => simp only [List.cons_append, receive, carried, ih]

theorem receive_take (body : List UInt8) (fs : List (Frame (frameFormat T))) (k : Nat) :
    receive body (fs.take k) = (receive body fs).take k := by
  induction fs generalizing body k with
  | nil => simp [receive]
  | cons f fs ih =>
      cases k with
      | zero => rfl
      | succ k => simp [receive, ih]

theorem carried_append (body : List UInt8) (fs gs : List (Frame (frameFormat T))) :
    carried body (fs ++ gs) = carried (carried body fs) gs := by
  induction fs generalizing body with
  | nil => rfl
  | cons f fs ih => simp only [List.cons_append, carried, ih]

end AsioNetworking
