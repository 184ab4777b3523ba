import AsioNetworking.Connection.Theorems
import AsioNetworking.Delivery
import AsioNetworking.Message.Stack

/-!
# The length that the reader derives

`<<` and `>>` set `header.size` to `sizeof(message_header<T>)` and the length of the body, in 32
bits; `ReadHeader` asks for the size less 8.
-/

namespace AsioNetworking

open List Framing

variable {T : Type} [IdType T]

/-- The bytes that the handler of `ReadHeader` has `ReadBody` ask for; 0 when it asks for none. -/
def bodyAsked : List (Effect T) → Nat
  | [] => 0
  | .startRead .body size :: _ => size
  | _ :: o => bodyAsked o

theorem bodyAsked_onReadHeader (c : Connection T) (bs : List UInt8) :
    bodyAsked (c.onReadHeader bs).2 = (MessageHeader.ofBytes (T := T) bs).size.toNat - 8 := by
  simp only [Connection.onReadHeader]
  split
  · rename_i hsz
    simp [Connection.readBody, Connection.startRead, bodyAsked, Connection.toNat_sub_eight hsz]
  · rename_i hsz
    have h8 : ¬ 8 < (MessageHeader.ofBytes (T := T) bs).size.toNat := hsz
    simp [Connection.addToIncomingMessageQueue, bodyAsked]
    omega

namespace Message

/-! ## Messages made with the operators -/

/-- A new message whose id has been set. -/
def fresh (id : T) : Message T := ⟨⟨id, 0⟩, []⟩

/-- Made of a new message by `<<` and by `>>` that find their bytes. -/
def Built (m : Message T) : Prop :=
  ∃ out, (bodyStack T).Run Mealy.free (fresh m.header.id) [] m out

theorem built_push (id : T) (data : List UInt8) : ((fresh id).push data).Built :=
  ⟨_, .step (e := .push data) .refl trivial rfl⟩

theorem sized_stackNext {m m' : Message T} {op o} (hn : (bodyStack T).next m op = some (m', o)) :
    m'.Sized := by
  cases op with
  | push data => cases hn; exact sized_push m data
  | pull k =>
      simp only [bodyStack, stackNext] at hn
      split at hn <;> cases hn
      rename_i hp
      exact (pull_eq_some hp).2.2.2

theorem Built.sized {m : Message T} (hm : m.Built) : m = fresh m.header.id ∨ m.Sized := by
  obtain ⟨out, hr⟩ := hm
  exact hr.invariant (P := fun m' _ => m' = fresh m.header.id ∨ m'.Sized) (.inl rfl)
    fun _ _ _ _ _ _ _ hn => .inr (sized_stackNext hn)

/-! ## Lengths beyond 32 bits -/

/-- The receiver derives the length of the body from the header exactly when header and body
together are shorter than `2 ^ 32`. -/
theorem declared_length_iff (hT : IdType.size T = 4) {m : Message T} (hm : m.Built)
    (c : Connection T) : bodyAsked (c.onReadHeader m.header.toBytes).2 = m.body.length ↔
      m.body.length < 2 ^ 32 - 8 := by
  rw [bodyAsked_onReadHeader, MessageHeader.ofBytes_toBytes]
  rcases hm.sized with he | hz
  · rw [he]
    simp [fresh]
  · rw [hz, size, sizeofHeader_of_size_eq_four hT]
    omega

theorem declared_length_iff_short :
    bodyAsked ((Connection.connected : Connection UInt32).onReadHeader
        ((fresh (7 : UInt32)).push [1, 2]).header.toBytes).2 = 2 ↔ 2 < 2 ^ 32 - 8 :=
  declared_length_iff rfl (built_push (7 : UInt32) [1, 2]) .connected

/-- A message with a body of `n` bytes. -/
def zeros (n : Nat) : Message UInt32 := (fresh 0).push (replicate n 0)

theorem size_zeros (n : Nat) :
    (zeros n).body.length = n ∧ (zeros n).header.size.toNat = (8 + n) % 2 ^ 32 := by
  have hbody : (zeros n).body.length = n := by simp [zeros, push, fresh]
  refine ⟨hbody, ?_⟩
  have hsize : (zeros n).Sized := sized_push _ _
  rw [hsize, size, hbody, sizeofHeader_of_size_eq_four rfl]

/-- The size of a message with `2 ^ 32 - 8` bytes of body is 0 in 32 bits. -/
theorem length_wraps :
    ¬ ∀ (m : Message UInt32), m.Built → ∀ c : Connection UInt32,
      bodyAsked (c.onReadHeader m.header.toBytes).2 = m.body.length := by
  intro hall
  obtain ⟨hbody, hsize⟩ := size_zeros (2 ^ 32 - 8)
  have hl := hall (zeros (2 ^ 32 - 8)) (built_push 0 _) .connected
  rw [bodyAsked_onReadHeader, MessageHeader.ofBytes_toBytes, hsize, hbody] at hl
  omega

end Message

/-! ## Other id types -/

/-- The literal 8 of `ReadHeader` is `sizeof(message_header<T>)` for ids of up to 4 bytes. -/
theorem sizeofHeader_eq_eight_iff :
    sizeofHeader T = 8 ↔ 1 ≤ IdType.size T ∧ IdType.size T ≤ 4 := by
  by_cases h4 : IdType.size T ≤ 4
  · rw [sizeofHeader, max_eq_right h4, sizeOffset, alignUp, alignUp]
    omega
  · have h₁ := size_le_sizeOffset T
    have h₂ := sizeOffset_le_sizeofHeader T
    omega

theorem four_le_sizeofHeader : 4 ≤ sizeofHeader T := by
  have := sizeOffset_le_sizeofHeader T
  omega

namespace Connection

variable {c c₀ : Connection T} {h h₀ : List (Effect T)}

/-- A reader that has taken 8 bytes of handshake and a whole stream of messages has passed on what
`deliver` makes of them. -/
theorem pushes_eq_deliver (hr : Reading c h) {hs : List UInt8} (hl : hs.length = 8)
    {ms : List (Message T)} (hf : ∀ m ∈ ms, m.Framed) (ht : tookBytes h = hs ++ stream ms) :
    pushes h = deliver [] ms := by
  rw [hr.pushes_eq_receive, ht, drop_left' hl, frames_stream hf, receive_framesOf]

/-- For messages with bodies that `<<` has made: the reader asks for the bodies that the writer
sends, and makes the sent messages of their stream, exactly when the id has at most 4 bytes. -/
theorem framing_iff {ms : List (Message T)}
    (hms : ∀ m ∈ ms, m.Built ∧ m.body ≠ [] ∧ m.size < 2 ^ 32) :
    ((∀ m ∈ ms, ∀ c : Connection T,
        bodyAsked (c.onReadHeader m.header.toBytes).2 = m.body.length) ∧
      ∀ c₀ h₀ c h hs, Start c₀ h₀ → (machine T).Run Mealy.free c₀ h₀ c h → hs.length = 8 →
        tookBytes h = hs ++ stream ms → pushes h = ms) ↔
    ms = [] ∨ 1 ≤ IdType.size T ∧ IdType.size T ≤ 4 := by
  have hlen : ∀ m ∈ ms, m.header.size.toNat = sizeofHeader T + m.body.length := by
    intro m hm
    obtain ⟨hb, hne, hlt⟩ := hms m hm
    rcases hb.sized with he | hz
    · exact absurd (by rw [he]; rfl) hne
    · rw [hz, Nat.mod_eq_of_lt hlt, Message.size]
  have hasked : ∀ m ∈ ms, ∀ c : Connection T, bodyAsked (c.onReadHeader m.header.toBytes).2 =
      sizeofHeader T + m.body.length - 8 := by
    intro m hm c
    rw [bodyAsked_onReadHeader, MessageHeader.ofBytes_toBytes, hlen m hm]
  rw [← sizeofHeader_eq_eight_iff]
  constructor
  · rintro ⟨hbody, -⟩
    cases ms with
    | nil => exact .inl rfl
    | cons m ms =>
        have ha := hasked m mem_cons_self .connected
        rw [hbody m mem_cons_self] at ha
        have hpos := length_pos_iff.mpr (hms m mem_cons_self).2.1
        have h4 := four_le_sizeofHeader (T := T)
        exact .inr (by omega)
  · intro hT
    have h8 : ∀ m ∈ ms, sizeofHeader T = 8 := by
      intro m hm
      rcases hT with rfl | hT
      · cases hm
      · exact hT
    refine ⟨fun m hm c => ?_, fun c₀ h₀ c h hs hstart hr hl ht => ?_⟩
    · rw [hasked m hm, h8 m hm]
      omega
    · have hd : ∀ m ∈ ms, m.Declared := by
        intro m hm
        have hlt := (hms m hm).2.2
        rw [Message.size, h8 m hm] at hlt
        exact ⟨by omega, .inl (by rw [hlen m hm, h8 m hm])⟩
      rw [pushes_eq_deliver (hstart.run_readInv hr).reading hl (fun m hm => (hd m hm).framed) ht]
      exact deliver_eq_self hd (pairwise_of_forall_mem_list fun m _ m' hm' _ => (hms m' hm').2.1)

/-- Two bytes of body, and an id of the given type. -/
def pair (id : T) : Message T := (Message.fresh id).push [1, 2]

theorem pair_built (hT : sizeofHeader T < 2 ^ 32 - 2) (id : T) :
    ∀ m ∈ [pair id], m.Built ∧ m.body ≠ [] ∧ m.size < 2 ^ 32 := by
  intro m hm
  cases mem_singleton.mp hm
  refine ⟨Message.built_push id [1, 2], cons_ne_nil 1 [2], ?_⟩
  have hsize : (pair id).size = sizeofHeader T + 2 := rfl
  omega

theorem framing_iff_pair :
    bodyAsked ((connected : Connection UInt32).onReadHeader (pair (7 : UInt32)).header.toBytes).2 =
      (pair (7 : UInt32)).body.length :=
  ((framing_iff (pair_built (by decide) (7 : UInt32))).mpr (.inr (by decide))).1 (pair 7)
    mem_cons_self connected

/-- The id of an `enum class` over `uint64_t`. -/
instance : IdType UInt64 where
  size := 8
  toBytes := uint64Bytes
  ofBytes := uint64OfBytes
  zero := 0
  length_toBytes _ := LittleEndian.length_encode _ _
  ofBytes_toBytes := uint64OfBytes_uint64Bytes

theorem wide_id :
    ¬ ∀ ms : List (Message UInt64), (∀ m ∈ ms, m.Built ∧ m.body ≠ [] ∧ m.size < 2 ^ 32) →
      ∀ m ∈ ms, ∀ c : Connection UInt64,
        bodyAsked (c.onReadHeader m.header.toBytes).2 = m.body.length := by
  intro hall
  have hl := hall [pair 7] (pair_built (by decide) 7) (pair 7) mem_cons_self .connected
  exact absurd hl (by decide +kernel)

end Connection

end AsioNetworking
