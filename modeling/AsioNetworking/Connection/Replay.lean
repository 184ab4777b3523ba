import AsioNetworking.Connection.Answer
import AsioNetworking.Lib.Masks

/-!
# Answers of another connection

`Scramble` drops some bits of the nonce and puts others one over another, so the answer to one nonce
can be the answer to another nonce as well.
-/

namespace AsioNetworking

open List

/-! ## Nonces with the same answer -/

/-- The bits of a nonce that alone decide a bit of the answer. -/
def seenBits : UInt64 := 0x8CD8137652030D

/-- The bits of the answer that two bits of the nonce decide together. -/
def mixedBits : UInt64 := 0x2124A00000

/-- The bits 16 above and 16 below the bits of the answer, or-ed. -/
def blend (nonce : UInt64) : UInt64 :=
  (nonce ^^^ 0xDDFAC06302AD3) >>> 16 ||| (nonce ^^^ 0xDDFAC06302AD3) <<< 16

/-- The nonces differ in a bit that the answer shows, or in one of the pairs of bits that it
shows or-ed. -/
def ToldApart (n m : UInt64) : Prop :=
  (n ^^^ m) &&& seenBits ≠ 0 ∨ (blend n ^^^ blend m) &&& mixedBits ≠ 0

theorem toBitVec_blend (n : UInt64) : (blend n).toBitVec =
    (n.toBitVec ^^^ 0xDDFAC06302AD3#64) >>> 16 ||| (n.toBitVec ^^^ 0xDDFAC06302AD3#64) <<< 16 :=
  rfl

/-- The masks after the shifts: the 16 lowest bits under the first one are shifted out. -/
theorem toBitVec_scramble (n : UInt64) : (scramble n).toBitVec =
    (n.toBitVec ^^^ 0xDDFAC06302AD3#64) >>> 16 &&& 0xADFCB27610#64 |||
      (n.toBitVec ^^^ 0xDDFAC06302AD3#64) <<< 16 &&& 0x3726327AD0000#64 := by
  have hs : (scramble n).toBitVec =
      ((n.toBitVec ^^^ 0xDDFAC06302AD3#64) &&& 0xADFCB27610439B#64) >>> 16 |||
        ((n.toBitVec ^^^ 0xDDFAC06302AD3#64) &&& 0x3726327AD#64) <<< 16 := rfl
  rw [hs, BitVec.ushiftRight_and_distrib, BitVec.shiftLeft_and_distrib]
  rfl

theorem scramble_eq_iff {n m : UInt64} : scramble n = scramble m ↔ ¬ ToldApart n m := by
  rw [← UInt64.toBitVec_inj, toBitVec_scramble, toBitVec_scramble, Masks.select_eq_iff,
    ← BitVec.ushiftRight_xor_distrib, ← BitVec.shiftLeft_xor_distrib, Masks.xor_xor_xor_cancel,
    Masks.ushiftRight_and_eq_zero_iff, Masks.shiftLeft_and_eq_zero_iff, ← and_assoc,
    ← Masks.and_or_eq_zero_iff, ← toBitVec_blend, ← toBitVec_blend]
  simp only [ToldApart, not_or, not_not, ← UInt64.toBitVec_inj, UInt64.toBitVec_and,
    UInt64.toBitVec_xor]
  exact Iff.rfl

/-! ## The verdict of a server connection -/

variable {T : Type} [IdType T]

namespace Connection

variable {c c' : Connection T} {h o : List (Effect T)}

/-- A server connection has still to read the answer, has accepted it, or has rejected it. -/
inductive Verdict (c : Connection T) (h : List (Effect T)) : Prop where
  | awaited : (tookBytes h).length < 8 → validations h = 0 → .rejected ∉ h → Verdict c h
  | accepted (answer rest) : answer.length = 8 → tookBytes h = answer ++ rest →
      answer = uint64Bytes c.nHandshakeCheck → validations h = 1 → .rejected ∉ h → Verdict c h
  | rejected (answer rest) : answer.length = 8 → tookBytes h = answer ++ rest →
      answer ≠ uint64Bytes c.nHandshakeCheck → validations h = 0 → .rejected ∈ h → Verdict c h

omit [IdType T] in
/-- A step that judges nothing leaves the verdict alone, unless it is the one that reads the rest of
the answer. -/
theorem Verdict.keep (hv : Verdict c h) (hc : c'.nHandshakeCheck = c.nHandshakeCheck)
    (hval : validations o = 0) (hrej : .rejected ∉ o)
    (ht : (tookBytes h).length < 8 → (tookBytes (h ++ o)).length < 8) : Verdict c' (h ++ o) := by
  cases hv with
  | awaited hlt hval₀ hrej₀ =>
      apply Verdict.awaited (ht hlt) (by simp [hval₀, hval])
      simp [hrej₀, hrej]
  | accepted answer rest hl hto he hval₁ hrej₀ =>
      refine .accepted answer (rest ++ tookBytes o) hl (by simp [hto]) (by rw [hc, he])
        (by simp [hval₁, hval]) ?_
      simp [hrej₀, hrej]
  | rejected answer rest hl hto hne hval₀ hrej₁ =>
      exact .rejected answer (rest ++ tookBytes o) hl (by simp [hto]) (by rwa [hc])
        (by simp [hval₀, hval]) (mem_append_left _ hrej₁)

theorem eight_le_took {answer : List UInt8} {fs rest} (hu : Heard c h answer fs rest) :
    ¬ (tookBytes h).length < 8 := by
  rw [hu.took, append_assoc, length_append, hu.length]
  omega

theorem Verdict.onReadValidation {c₁ : Connection T} {bs} (hv : Verdict c h)
    (hz : tookBytes h = []) (ho : c₁.nOwnerType = .server) (hl : bs.length = 8) :
    Verdict (c₁.onReadValidation bs).1
      (h ++ .took .validation bs :: (c₁.onReadValidation bs).2) := by
  cases hv with
  | accepted answer rest hl' ht => simp [(append_eq_nil_iff.mp (ht.symm.trans hz)).1] at hl'
  | rejected answer rest hl' ht => simp [(append_eq_nil_iff.mp (ht.symm.trans hz)).1] at hl'
  | awaited _ hval hrej =>
      by_cases hok : uint64OfBytes bs = c₁.nHandshakeCheck
      · apply Verdict.accepted bs [] hl
        · simp [Connection.onReadValidation, ho, hok, hz]
        · have hcheck : (c₁.onReadValidation bs).1.nHandshakeCheck = c₁.nHandshakeCheck := by
            simp [Connection.onReadValidation, ho, hok]
          rw [hcheck, ← hok, uint64Bytes_uint64OfBytes hl]
        · simp [Connection.onReadValidation, ho, hok, hval]
        · simp [Connection.onReadValidation, ho, hok, hrej]
      · apply Verdict.rejected bs [] hl
        · simp [Connection.onReadValidation, ho, hok, hz]
        · have hcheck : (c₁.onReadValidation bs).1.nHandshakeCheck = c₁.nHandshakeCheck := by
            simp [Connection.onReadValidation, ho, hok, close]
          rw [hcheck]
          rintro rfl
          exact hok (uint64OfBytes_uint64Bytes _)
        · simp [Connection.onReadValidation, ho, hok, hval]
        · simp [Connection.onReadValidation, ho, hok]

theorem Verdict.step {e} (hv : Verdict c h) (hi : ReadInv c h) (ho : c.nOwnerType = .server)
    (hs : ReadStep c c' e o) : Verdict c' (h ++ o) := by
  have hcheck := hs.sameSelf.check
  cases hs with
  | other hoff _ =>
      obtain ⟨ht, -, -, hval, -⟩ := offReader_projections hoff
      refine hv.keep hcheck hval (fun hx => ?_) (by simp [ht])
      cases hoff _ hx
  | connected => exact hv.keep hcheck rfl (by simp) (by simp)
  | connectFailed => exact hv.keep hcheck rfl (by simp) (by simp)
  | @took op l₁ l₂ bs hr hl =>
      obtain ⟨rfl, rfl, -, -, haw⟩ := hi.reading.awaits hr
      cases haw with
      | validation live hz hu => exact hv.onReadValidation hz ho hl
      | header answer fs live hu =>
          have hread := eight_le_took hu
          simp only [onRead, Connection.onReadHeader] at hcheck ⊢
          split at hcheck <;> rename_i hsz
          · rw [if_pos hsz]
            exact hv.keep hcheck (by simp) (by simp) fun hlt => absurd hlt hread
          · rw [if_neg hsz]
            exact hv.keep hcheck
              (by simp [addToIncomingMessageQueue]) (by simp [addToIncomingMessageQueue])
              fun hlt => absurd hlt hread
      | body answer fs hd live hu =>
          exact hv.keep hcheck
            (by simp [onRead, onReadBody, addToIncomingMessageQueue])
            (by simp [onRead, onReadBody, addToIncomingMessageQueue])
            fun hlt => absurd hlt (eight_le_took hu)
  | @readFail op l₁ l₂ bs hr hl =>
      apply hv.keep hcheck rfl (by simp)
      intro hlt
      obtain ⟨-, -, -, -, haw⟩ := hi.reading.awaits hr
      cases haw with
      | validation live hz hu =>
          rw [tookBytes_append, hz]
          rcases hl with rfl | hl
          · simp
          · simpa using hl
      | header answer fs live hu => exact absurd hlt (eight_le_took hu)
      | body answer fs hd live hu => exact absurd hlt (eight_le_took hu)
  | wrote _ ws _ =>
      simp only [onWriteValidation, ho]
      exact hv.keep rfl rfl (by simp) (by simp)
  | writeFail => exact hv.keep hcheck rfl (by simp) (by simp)

theorem run_verdict {G nonce msgs approve uid} (hr : (machine T).Run G
    (accepted nonce msgs approve uid).1 (accepted nonce msgs approve uid).2 c h) :
    Verdict c h := by
  have hs : Start (accepted (T := T) nonce msgs approve uid).1 _ := .server nonce msgs approve uid
  refine (hr.invariant (P := fun c h => (c.nOwnerType = .server ∧ ReadInv c h) ∧ Verdict c h)
    ⟨⟨(run_accepted (h := _) (G := Mealy.free) .refl).1, hs.readInv⟩, ?_⟩ ?_).2
  · obtain ⟨-, ht, -⟩ := accepted_silent nonce msgs approve uid
    apply Verdict.awaited (by simp [ht])
    · cases approve with
      | true => simp [accepted_approved, (sameHeard_map_send msgs).2.1.validations]
      | false => simp [accepted_denied, (sameHeard_map_send msgs).2.1.validations]
    · cases approve with
      | true => simp [accepted_approved]
      | false => simp [accepted_denied]
  · rintro c h e c' o ⟨⟨ho, hi⟩, hv⟩ - hn
    have hrs := next_readStep hn
    exact ⟨⟨hrs.owner.trans ho, hi.step hrs⟩, hv.step hi ho hrs⟩

/-- In every run of a server connection with nonce `m` that is given the answer to the nonce `n`:
the answer is rejected exactly when the two nonces can be told apart, and is accepted otherwise. -/
theorem answer_rejected_iff {n m : UInt64} {msgs approve uid} (hr : (machine T).Run Mealy.free
    (accepted m msgs approve uid).1 (accepted m msgs approve uid).2 c h)
    (ht : uint64Bytes (scramble n) <+: tookBytes h) :
    (.rejected ∈ h ↔ ToldApart n m) ∧ (validations h = 1 ↔ ¬ ToldApart n m) := by
  obtain ⟨-, -, hcheck, -⟩ := run_accepted hr
  have htold : uint64Bytes (scramble n) = uint64Bytes c.nHandshakeCheck ↔ ¬ ToldApart n m := by
    rw [hcheck, ← scramble_eq_iff]
    refine ⟨fun he => ?_, fun he => by rw [he]⟩
    rw [← uint64OfBytes_uint64Bytes (scramble n), he, uint64OfBytes_uint64Bytes]
  have hlen : (uint64Bytes (scramble n)).length = 8 := LittleEndian.length_encode 8 _
  have judged {answer rest} (hl : answer.length = 8) (hto : tookBytes h = answer ++ rest) :
      uint64Bytes (scramble n) = answer := by
    rw [hto] at ht
    exact (prefix_of_prefix_length_le ht (prefix_append _ _) (by omega)).eq_of_length (by omega)
  cases run_verdict hr with
  | awaited hlt => have := ht.length_le; omega
  | accepted answer rest hl hto he hval hrej =>
      have hsame := htold.mp ((judged hl hto).trans he)
      exact ⟨iff_of_false hrej hsame, iff_of_true hval hsame⟩
  | rejected answer rest hl hto hne hval hrej =>
      have hdiff : ¬ ¬ ToldApart n m := fun hs => hne ((judged hl hto).symm.trans (htold.mpr hs))
      exact ⟨iff_of_true hrej (not_not.mp hdiff), iff_of_false (by omega) hdiff⟩

/-- A server connection whose nonce is `m` is given the answer to the nonce `n`. -/
def replayed (n m : UInt64) : Option (Result UInt32) :=
  (machine UInt32).exec Mealy.free (accepted m [] true 10000).1 (accepted m [] true 10000).2
    [.readOk 0 (uint64Bytes (scramble n))]

theorem answer_rejected_iff_ticks :
    .rejected ∈ ((replayed 0 1).get (by decide +kernel)).2 ↔ ToldApart 0 1 :=
  (answer_rejected_iff (.of_isSome _ _ : (machine UInt32).Run Mealy.free (accepted 1 [] true 10000).1
    (accepted 1 [] true 10000).2 ((replayed 0 1).get (by decide +kernel)).1
    ((replayed 0 1).get (by decide +kernel)).2) (by decide +kernel)).1

theorem answer_of_other_nonce :
    ¬ ∀ (n m : UInt64) (c : Connection UInt32) (h : List (Effect UInt32)), n ≠ m →
      (machine UInt32).Run Mealy.free (accepted m [] true 10000).1 (accepted m [] true 10000).2 c h →
        uint64Bytes (scramble n) <+: tookBytes h → .rejected ∈ h := by
  intro hall
  have hrej := hall 0 2 ((replayed 0 2).get (by decide +kernel)).1
    ((replayed 0 2).get (by decide +kernel)).2 (by decide) (.of_isSome _ _) (by decide +kernel)
  exact absurd hrej (by decide +kernel)

end Connection

end AsioNetworking
