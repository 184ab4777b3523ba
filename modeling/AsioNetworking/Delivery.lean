import AsioNetworking.Connection.Wire

/-!
# From messages to frames and back

The writer cuts its stream by `body.size()`, the reader by `header.size`. Where the two agree, the
reader finds the frames of the messages; what it makes of them still depends on the frames before.
-/

namespace AsioNetworking

open List Framing

variable {T : Type} [IdType T]

/-! ## Messages whose header tells the length of their body -/

namespace Message

/-- The reader finds the end of the message: its header announces the body that it has. -/
def Framed (m : Message T) : Prop := m.body.length = m.header.size.toNat - 8

instance (m : Message T) : Decidable m.Framed := inferInstanceAs (Decidable (_ = _))

omit [IdType T] in
theorem Declared.framed {m : Message T} (hd : m.Declared) : m.Framed := by
  obtain ⟨-, hs | ⟨hs, hb⟩⟩ := hd
  · rw [Framed, hs]; omega
  · rw [Framed, hs, hb]; rfl

def frame (m : Message T) (hf : m.Framed) : Frame (frameFormat T) where
  header := m.header.toBytes
  body := m.body
  header_length := m.header.length_toBytes
  body_length := by simpa [frameFormat, Framed] using hf

theorem bytes_frame {m : Message T} (hf : m.Framed) : (m.frame hf).bytes = m.toBytes := rfl

@[simp] theorem frameHeader_frame {m : Message T} (hf : m.Framed) :
    frameHeader (m.frame hf) = m.header := m.header.ofBytes_toBytes

theorem framed_of_bytes {m : Message T} {f : Frame (frameFormat T)} (hb : f.bytes = m.toBytes) :
    m.Framed := by
  obtain ⟨hh, hbody⟩ := append_inj hb (by
    rw [f.header_length, MessageHeader.length_toBytes]; rfl)
  have := length_frame_body f
  rw [frameHeader, hh, MessageHeader.ofBytes_toBytes, hbody] at this
  exact this

omit [IdType T] in
theorem Framed.size_gt {m : Message T} (hf : m.Framed) : m.header.size > 8 ↔ m.body ≠ [] := by
  rw [← length_pos_iff, hf]
  show 8 < m.header.size.toNat ↔ _
  omega

end Message

def framesOf (ms : List (Message T)) (hf : ∀ m ∈ ms, m.Framed) : List (Frame (frameFormat T)) :=
  ms.attach.map fun m => m.1.frame (hf m.1 m.2)

@[simp] theorem framesOf_cons (m : Message T) (ms : List (Message T)) (hf) :
    framesOf (m :: ms) hf = m.frame (hf m mem_cons_self) ::
      framesOf ms (fun m' hm => hf m' (mem_cons_of_mem _ hm)) := by
  simp [framesOf, attach_cons]

theorem join_framesOf (ms : List (Message T)) (hf) : join (framesOf ms hf) = Connection.stream ms := by
  induction ms with
  | nil => rfl
  | cons m ms ih => rw [framesOf_cons, join_cons, ih, Message.bytes_frame, Connection.stream_cons]

theorem frames_stream {ms : List (Message T)} (hf : ∀ m ∈ ms, m.Framed) :
    frames (frameFormat T) (Connection.stream ms) = framesOf ms hf := by
  rw [← join_framesOf ms hf, ← append_nil (join _), frames_join_append,
    frames_of_none Connection.split_nil, append_nil]

/-! ## What the reader makes of them -/

/-- The messages that a reader makes of the messages `ms`, when the temporary message still has the
body `body`. -/
def deliver (body : List UInt8) : List (Message T) → List (Message T)
  | [] => []
  | m :: ms =>
      let body' := if m.header.size > 8 then m.body else body
      ⟨m.header, body'⟩ :: deliver body' ms

theorem receive_framesOf (body : List UInt8) (ms : List (Message T)) (hf) :
    receive body (framesOf ms hf) = deliver body ms := by
  induction ms generalizing body with
  | nil => rfl
  | cons m ms ih =>
      rw [framesOf_cons, receive, deliver, ih, Message.frameHeader_frame]
      rfl

namespace Connection

variable {c : Connection T} {h : List (Effect T)}

/-- A reader that has taken 8 bytes of handshake and a part of a stream of messages has passed on
the first of these messages, each with the body that `deliver` gives it. -/
theorem pushes_prefix (hr : Reading c h) {hs : List UInt8} (hl : hs.length = 8)
    {ms : List (Message T)} (hf : ∀ m ∈ ms, m.Framed) (ht : tookBytes h <+: hs ++ stream ms) :
    pushes h <+: deliver [] ms := by
  rcases hr.unread_or_heard with hu | ⟨hs', fs, rest, hu⟩
  · rw [hu.pushes]; exact nil_prefix
  · rw [hu.took, append_assoc] at ht
    obtain ⟨t, ht⟩ := ht
    obtain ⟨-, ht⟩ := append_inj (by simpa [append_assoc] using ht) (hu.length.trans hl.symm)
    have hfr : fs <+: framesOf ms hf := by
      rw [← frames_stream hf, ← ht, frames_join_append]
      exact prefix_append _ _
    obtain ⟨gs, hgs⟩ := hfr
    rw [hu.pushes, ← receive_framesOf [] ms hf, ← hgs, receive_append]
    exact prefix_append _ _

/-! ## Bodies left over -/

/-- The handler passes on a frame without a body while the temporary message has one. -/
def reusesBody (c : Connection T) : Event T → Bool
  | .readOk j bs =>
      match c.reads[j]? with
      | none => false
      | some op => op.kind = .header && (MessageHeader.ofBytes (T := T) bs).size ≤ 8 &&
          !c.msgTemporaryIn.body.isEmpty
  | _ => false

theorem pushes_addToIncoming (c : Connection T) :
    pushes c.addToIncomingMessageQueue.2 = [c.msgTemporaryIn] := by
  simp [addToIncomingMessageQueue]

/-- A step that reuses no body passes on no body with a header that announces none. -/
theorem ReadStep.no_body {c' : Connection T} {e o} (hs : ReadStep c c' e o) (hi : ReadInv c h)
    (hg : c.reusesBody e = false) : ∀ m ∈ pushes o, m.header.size ≤ 8 → m.body = [] := by
  cases hs with
  | other ho _ => simp [offReader_projections ho]
  | took l₁ l₂ bs hr _ =>
      rename_i op _
      have hj : c.reads[l₁.length]? = some op := by simp [hr]
      cases hk : op.kind with
      | validation =>
          rcases c.role with ho | ho <;> simp only [onRead, onReadValidation, ho]
          · simp
          · split <;> simp
      | header =>
          simp only [onRead, onReadHeader]
          split
          · simp
          · rename_i hsz
            have hsz : (MessageHeader.ofBytes (T := T) bs).size ≤ 8 := UInt32.not_lt.mp hsz
            simp only [reusesBody, hj, hk, hsz, decide_true, Bool.true_and,
              Bool.not_eq_false', List.isEmpty_iff] at hg
            simp only [pushes, pushes_addToIncoming, mem_singleton, forall_eq]
            exact fun _ => hg
      | body =>
          simp only [onRead, onReadBody, pushes, pushes_addToIncoming, mem_singleton, forall_eq]
          intro hsz
          obtain ⟨-, -, -, -, haw⟩ := hi.reading.awaits hr
          cases haw with
          | validation => cases hk
          | header => cases hk
          | body _ _ _ _ _ _ _ h8 ht =>
              rw [ht] at hsz
              exact absurd h8 (UInt32.not_lt.mpr hsz)
  | wrote _ ws _ => rcases c.role with ho | ho <;> simp [onWriteValidation, ho]
  | connected => simp
  | connectFailed => simp
  | readFail => simp
  | writeFail => simp

/-- In a run that reuses no body, no message passed on has a body that its header does not announce. -/
theorem Start.run_no_body {c₀ : Connection T} {h₀} (hs : Start c₀ h₀)
    (hr : (machine T).Run (fun c _ e => c.reusesBody e = false) c₀ h₀ c h) :
    ∀ m ∈ pushes h, m.header.size ≤ 8 → m.body = [] := by
  have hp₀ : pushes h₀ = [] := by
    cases hs with
    | client => rfl
    | server nonce msgs approve uid => exact (accepted_silent nonce msgs approve uid).1
  refine (hr.invariant (P := fun c h => ReadInv c h ∧
    ∀ m ∈ pushes h, m.header.size ≤ 8 → m.body = []) ⟨hs.readInv, by simp [hp₀]⟩ ?_).2
  rintro c h e c' o ⟨hi, hm⟩ hg hn
  refine ⟨hi.step (next_readStep hn), fun m hmem => ?_⟩
  rw [pushes_append, mem_append] at hmem
  rcases hmem with hmem | hmem
  · exact hm m hmem
  · exact (next_readStep hn).no_body hi hg m hmem

end Connection

omit [IdType T] in
/-- A body is left over only where a message without a body follows one with a body. -/
theorem deliver_eq_self {ms : List (Message T)} (hd : ∀ m ∈ ms, m.Declared)
    (hb : ms.Pairwise fun m m' => m.body ≠ [] → m'.body ≠ []) : deliver [] ms = ms := by
  suffices h : ∀ body, (body ≠ [] → ∀ m ∈ ms, m.body ≠ []) → deliver body ms = ms by
    exact h [] fun h => absurd rfl h
  induction ms with
  | nil => intro _ _; rfl
  | cons m ms ih =>
      intro body hbody
      have ih := ih (fun m' hm' => hd m' (mem_cons_of_mem _ hm')) (pairwise_cons.mp hb).2
      have hgt := (hd m mem_cons_self).framed.size_gt
      have hm : (if m.header.size > 8 then m.body else body) = m.body := by
        split
        · rfl
        · rename_i h8
          have hnil : m.body = [] := not_not.mp (hgt.not.mp h8)
          rw [hnil]
          by_contra hne
          exact hbody hne m mem_cons_self hnil
      rw [deliver, hm, ih m.body fun hne m' hm' => (pairwise_cons.mp hb).1 m' hm' hne]

omit [IdType T] in
/-- Where no body is left over, the reader passes on what the writer sent. -/
theorem prefix_of_prefix_deliver {body : List UInt8} {ms ms' : List (Message T)}
    (hp : ms' <+: deliver body ms) (hd : ∀ m ∈ ms, m.Declared)
    (hb : ∀ m ∈ ms', m.header.size ≤ 8 → m.body = []) : ms' <+: ms := by
  induction ms generalizing body ms' with
  | nil => exact hp
  | cons m ms ih =>
      cases ms' with
      | nil => exact nil_prefix
      | cons x xs =>
          obtain ⟨hx, hp⟩ := cons_prefix_cons.mp hp
          have hxm : x = m := by
            by_cases h8 : m.header.size > 8
            · rw [hx, if_pos h8]
            · have hm : m.body = [] := by
                by_contra hne
                exact h8 ((hd m mem_cons_self).framed.size_gt.mpr hne)
              have hxb := hb x mem_cons_self (by rw [hx]; exact UInt32.not_lt.mp h8)
              rw [Message.ext_iff, hxb, hm, hx]
              exact ⟨rfl, rfl⟩
          rw [hxm]
          exact (prefix_cons_inj m).mpr (ih hp (fun m' hm' => hd m' (mem_cons_of_mem _ hm'))
            fun m' hm' => hb m' (mem_cons_of_mem _ hm'))

end AsioNetworking
