import AsioNetworking.Server.Step

/-!
# Validated peers
-/

namespace AsioNetworking

open List

variable {T ι : Type} [DecidableEq ι] [IdType T]

namespace Server

variable {G : Server T ι → List (ServerEffect T ι) → ServerEvent T ι → Prop}
  {s : Server T ι} {h : List (ServerEffect T ι)}

theorem run_conn_free (hr : (machine T ι).Run G init [] s h) (i : ι) : Known Mealy.free i s h :=
  run_conn hr (fun _ _ _ _ _ _ _ => trivial) (fun _ _ _ _ => trivial) i

/-- What the readers of a connection passed on went to `OnMessage` or waits in `m_qMessagesIn`. -/
theorem run_queue (hr : (machine T ι).Run G init [] s h) (i : ι) :
    pushes (hist i h) = onMessages i h ++ s.queued i := by
  induction hr with
  | refl => rfl
  | @step s h e s' o hr _ hn ih =>
      have hown : ∀ j c, s.conns j = some c → c.nOwnerType = .server := fun j c hc => by
        rcases run_conn_free hr j with ⟨hnone, -⟩ | ⟨c', nonce, sends, approve, uid, hsc, hacc⟩
        · rw [hc] at hnone; cases hnone
        · rw [hc] at hsc
          cases hsc
          exact (Connection.run_accepted hacc.run).1
      have hstep := (next_serverStep hn).queued hown i
      rw [hist_append, pushes_append, ih, onMessages_append, append_assoc, append_assoc, hstep]

/-- In every run of a server, whatever its peers send: a message of the connection `i` is passed on,
and `OnClientValidated` is called for it, only if the first 8 bytes received are the scrambled
nonce that the connection was constructed with; it is called at most once, and before the first
message; the first header is read at offset 8; after a wrong or truncated answer nothing more is
read, passed on or validated. -/
theorem validated_only (hr : (machine T ι).Run Mealy.free init [] s h) (i : ι) :
    (pushes (hist i h) = onMessages i h ++ s.queued i) ∧
      (pushes (hist i h) ≠ [] ∨ 0 < validations (hist i h) → ∃ nonce, nonces i h = [nonce] ∧
        (tookBytes (hist i h)).take 8 = uint64Bytes (scramble nonce)) ∧
      validations (hist i h) ≤ 1 ∧
      (∀ h₁ remote msg h₂, hist i h = h₁ ++ .push remote msg :: h₂ → validations h₁ = 1) ∧
      (∀ h₁ size h₂, hist i h = h₁ ++ .startRead .header size :: h₂ → headerReads h₁ = 0 →
        (tookBytes h₁).length = 8) ∧
      (∀ h₁ x h₂, hist i h = h₁ ++ x :: h₂ → readEnded h₁ = true →
        x ≠ .onClientValidated ∧ (∀ remote msg, x ≠ .push remote msg) ∧
          (∀ kind size, x ≠ .startRead kind size) ∧ ∀ kind bytes, x ≠ .took kind bytes) := by
  refine ⟨run_queue hr i, ?_⟩
  rcases run_conn_free hr i with ⟨-, hh, -⟩ | ⟨c, nonce, sends, approve, uid, -, hacc⟩
  · rw [hh]
    exact ⟨by simp, by simp, by simp, by simp, by simp⟩
  · obtain ⟨hown, -, hcheck, -⟩ := Connection.run_accepted hacc.run
    obtain ⟨hread, hord⟩ := (Connection.Start.server nonce sends approve uid).run_readInv hacc.run
    rw [hown] at hord
    refine ⟨?_, ?_, fun h₁ remote msg h₂ he => ?_, fun h₁ size h₂ he hz => ?_,
      fun h₁ x h₂ he hend => ?_⟩
    · intro hv
      rcases hread.handshake with ⟨hp, hval, -⟩ | ⟨hs, fs, rest, hu, hpass, -⟩
      · simp [hp, hval] at hv
      · refine ⟨nonce, hacc.once, ?_⟩
        rw [hu.took, append_assoc, take_left' hu.length, (hpass.server hown).2, hcheck]
    · rcases hread.handshake with ⟨-, hval, -⟩ | ⟨hs, fs, rest, hu, hpass, -⟩
      · omega
      · rw [(hpass.server hown).1]
    · exact (hord _ _ _ he).2 rfl
    · obtain ⟨-, hk, hlen⟩ := hord _ _ _ he
      have hnil : pushes h₁ = [] := length_eq_zero_iff.mp (hk.symm.trans hz)
      rw [hlen, hnil]
      rfl
    · have hx := hord _ _ _ he
      cases x with
      | push => simp [Connection.Orderly, hend] at hx
      | onClientValidated => simp [Connection.Orderly, hend] at hx
      | took => simp [Connection.Orderly, hend] at hx
      | startRead kind size => cases kind <;> simp [Connection.Orderly, hend] at hx
      | _ => simp

/-- A peer answers the nonce 7 and sends a message without a body. -/
def oneMessage : Server UInt32 Unit × List (ServerEffect UInt32 Unit) :=
  ((machine UInt32 Unit).exec Mealy.free init [] [.accept () 7 [] true,
    .conn () (.readOk 0 (uint64Bytes (scramble 7))),
    .conn () (.readOk 0 [1, 0, 0, 0, 8, 0, 0, 0])]).get (by decide +kernel)

theorem validated_only_oneMessage :
    pushes (hist () oneMessage.2) = oneMessage.1.queued () ∧ ∃ nonce,
      nonces () oneMessage.2 = [nonce] ∧
        (tookBytes (hist () oneMessage.2)).take 8 = uint64Bytes (scramble nonce) := by
  obtain ⟨hq, hval, -⟩ := validated_only
    (.of_isSome _ _ : (machine UInt32 Unit).Run Mealy.free init [] oneMessage.1 oneMessage.2) ()
  exact ⟨hq, hval (Or.inl (by decide +kernel))⟩

end Server

end AsioNetworking
