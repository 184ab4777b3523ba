import AsioNetworking.Connection.Wire
import Mathlib.Data.List.Infix

/-!
# What a server connection puts on the wire

Its handshake puts out the nonce and nothing else; its message chain puts out messages that were
given to `Send`. Once the reader has ended, the socket is closed and nothing more goes out.
-/

namespace AsioNetworking

open List

variable {T : Type}

/-- The bytes put on the wire by `WriteValidation`. -/
@[simp] def handshakeBytes : List (Effect T) → List UInt8
  | [] => []
  | .put kind bytes :: h =>
      if kind.isChain then handshakeBytes h else bytes ++ handshakeBytes h
  | _ :: h => handshakeBytes h

@[simp] theorem handshakeBytes_append (h o : List (Effect T)) :
    handshakeBytes (h ++ o) = handshakeBytes h ++ handshakeBytes o := by
  induction h using handshakeBytes.induct <;> simp_all

theorem handshakeBytes_of_put {h : List (Effect T)} (hp : putBytes h = []) :
    handshakeBytes h = [] := by
  induction h using handshakeBytes.induct <;> simp_all

theorem putBytes_eq_handshake {h : List (Effect T)} (hc : chainBytes h = []) :
    putBytes h = handshakeBytes h := by
  induction h using handshakeBytes.induct <;> simp_all

namespace Connection

variable [IdType T] {c c' : Connection T} {h : List (Effect T)}

/-! ## The nonce -/

/-- The handshake of a server connection: its nonce is being written, or is not any more. -/
inductive NonceOut (c : Connection T) (h : List (Effect T)) : Prop where
  | writing (rest live) : c.answerWrites = [⟨.validation, rest, live⟩] →
      handshakeBytes h ++ rest = uint64Bytes c.nHandshakeOut → NonceOut c h
  | ended : c.answerWrites = [] → handshakeBytes h <+: uint64Bytes c.nHandshakeOut → NonceOut c h

omit [IdType T] in
theorem NonceOut.sent_prefix (hi : NonceOut c h) :
    handshakeBytes h <+: uint64Bytes c.nHandshakeOut := by
  cases hi with
  | writing rest live _ hr => exact ⟨rest, hr⟩
  | ended _ hp => exact hp

omit [IdType T] in
theorem NonceOut.congr {h'} (hi : NonceOut c h) (hw : c'.answerWrites = c.answerWrites)
    (ho : c'.nHandshakeOut = c.nHandshakeOut) (hh : handshakeBytes h' = handshakeBytes h) :
    NonceOut c' h' := by
  cases hi with
  | writing rest live ha hr => exact .writing rest live (hw.trans ha) (by rw [hh, ho, hr])
  | ended ha hp => exact .ended (hw.trans ha) (by rw [hh, ho]; exact hp)

omit [IdType T] in
theorem answerWrites_split {l₁ l₂ : List WriteOp} {op op' : WriteOp} (hk : op.kind.isChain = false)
    (hw : c.writes = l₁ ++ op :: l₂) (ha : c.answerWrites = [op']) :
    op = op' ∧ l₁.filter (!·.kind.isChain) = [] ∧ l₂.filter (!·.kind.isChain) = [] := by
  simp only [answerWrites, hw, filter_append, filter_cons, hk, Bool.not_false, if_true,
    append_eq_singleton_iff, cons.injEq, reduceCtorEq, and_false, or_false] at ha
  exact ⟨ha.2.1, ha.1, ha.2.2⟩

theorem NonceOut.step {e o} (hi : NonceOut c h) (ho : c.nOwnerType = .server)
    (hn : c.next e = some (c', o)) : NonceOut c' (h ++ o) := by
  have hout := (next_readStep hn).sameSelf.out ho
  have starts {c₁ ws} (hst : Starts c₁ (c', o) ws) (hch : ∀ op ∈ ws, op.kind.isChain = true)
      (h₁ : NonceOut c₁ h) (heq : c₁.nHandshakeOut = c.nHandshakeOut) : NonceOut c' (h ++ o) := by
    have hnil : ws.filter (!·.kind.isChain) = [] :=
      filter_eq_nil_iff.mpr fun op hop => by simp [hch op hop]
    have hw := hst.writes
    apply h₁.congr
    · simp only at hw
      rw [answerWrites, hw, filter_append, hnil, append_nil]
      rfl
    · rw [hout, heq]
    · rw [handshakeBytes_append, handshakeBytes_of_put hst.put, append_nil]
  cases next_writeStep hn with
  | quiet _ _ hst => exact starts hst (by simp) hi rfl
  | wake msg _ hst => exact starts hst (by simp) hi rfl
  | solve j bs hs _ =>
      simp only [solves] at hs
      split at hs
      · simp [ho] at hs
      · cases hs
  | @put op l₁ l₂ k hw _ _ _ hw' =>
      cases hk : op.kind.isChain with
      | true =>
          apply hi.congr _ hout (by simp [hk])
          simp [answerWrites, hw, hw', hk]
      | false =>
          cases hi with
          | ended ha _ => simp [answerWrites, hw, hk] at ha
          | writing rest live ha hr =>
              obtain ⟨rfl, hl₁, hl₂⟩ := answerWrites_split hk hw ha
              refine .writing (rest.drop k) live ?_ ?_
              · simp [answerWrites, hw', hl₁, hl₂]
              · simp [hout, ← hr]
  | @wrote op o l₁ l₂ ws hw _ hrest _ hch hst =>
      apply starts hst hch _ rfl
      cases hk : op.kind.isChain with
      | true =>
          refine hi.congr ?_ rfl rfl
          simp [answerWrites, hw, hk]
      | false =>
          cases hi with
          | ended ha _ => simp [answerWrites, hw, hk] at ha
          | writing rest live ha hr =>
              obtain ⟨rfl, hl₁, hl₂⟩ := answerWrites_split hk hw ha
              exact .ended (by simp [answerWrites, hl₁, hl₂]) ⟨rest, hr⟩
  | @writeFail op l₁ l₂ hw hw' _ =>
      cases hk : op.kind.isChain with
      | true =>
          apply hi.congr _ hout (by simp)
          simp [answerWrites, hw, hw', hk]
      | false =>
          cases hi with
          | ended ha _ => simp [answerWrites, hw, hk] at ha
          | writing rest live ha hr =>
              obtain ⟨rfl, hl₁, hl₂⟩ := answerWrites_split hk hw ha
              refine .ended (by simp [answerWrites, hw', hl₁, hl₂]) ?_
              rw [hout]
              exact ⟨rest, by simpa using hr⟩

/-! ## After the end of the reader -/

/-- Nothing goes out after a read has failed or a wrong answer was read. -/
def Hushed (past : List (Effect T)) (x : Effect T) : Prop := readEnded past = true → putBytes [x] = []

omit [IdType T] in
theorem putBytes_singleton {o : List (Effect T)} (hp : putBytes o = []) :
    ∀ x ∈ o, putBytes [x] = [] := by
  intro x hx
  obtain ⟨o₁, o₂, rfl⟩ := append_of_mem hx
  rw [← singleton_append, putBytes_append, putBytes_append, append_eq_nil_iff, append_eq_nil_iff] at hp
  exact hp.2.1

theorem closed_of_readEnded {kind bs} (he : readEnded (onRead kind bs c).2 = true) :
    (onRead kind bs c).1.socketOpen = false := by
  cases kind with
  | validation =>
      simp only [onRead, onReadValidation] at he ⊢
      split at he
      · simp at he
      · split at he
        · simp at he
        · rename_i hne
          simp [hne, close]
  | header =>
      simp only [onRead, onReadHeader] at he
      split at he <;>
        simp [addToIncomingMessageQueue] at he
  | body =>
      simp [onRead, onReadBody, addToIncomingMessageQueue] at he

theorem ReadStep.closed_of_readEnded {e o} (hs : ReadStep c c' e o) (he : readEnded o = true) :
    c'.socketOpen = false := by
  cases hs with
  | other hoff _ =>
      obtain ⟨-, -, -, -, -, hend⟩ := offReader_projections hoff
      rw [hend] at he; cases he
  | connected => simp at he
  | connectFailed => rfl
  | took l₁ l₂ bs _ _ => exact Connection.closed_of_readEnded he
  | readFail => rfl
  | wrote _ ws _ =>
      rcases c.role with ho | ho <;> simp [onWriteValidation, ho] at he
  | writeFail => rfl

structure HushInv (c : Connection T) (h : List (Effect T)) : Prop where
  closed : readEnded h = true → c.socketOpen = false
  hushed : Past Hushed h

theorem HushInv.step {e o} (hi : HushInv c h) (hn : c.next e = some (c', o)) :
    HushInv c' (h ++ o) := by
  have hws := next_writeStep hn
  have still (hp : putBytes o = []) : Past Hushed (h ++ o) :=
    past_append.mpr ⟨hi.hushed, Past.of_forall fun x hx _ _ => putBytes_singleton hp x hx⟩
  constructor
  · intro he
    rw [readEnded_append, Bool.or_eq_true] at he
    rcases he with he | he
    · cases ho : c'.socketOpen with
      | false => rfl
      | true =>
          have hopen := hws.isOpen ho
          rw [hi.closed he] at hopen; cases hopen
    · exact (next_readStep hn).closed_of_readEnded he
  · cases hws with
    | quiet _ _ hst => exact still hst.put
    | wake _ _ hst => exact still hst.put
    | solve _ _ _ hst => exact still hst.put
    | wrote _ _ _ _ _ _ _ _ hst => exact still hst.put
    | writeFail => exact still rfl
    | put l₁ l₂ k _ _ hopen _ _ =>
        refine past_append.mpr ⟨hi.hushed, past_cons.mpr ⟨fun he => ?_, past_nil⟩⟩
        rw [append_nil] at he
        rw [hi.closed he] at hopen; cases hopen

/-! ## Runs -/

theorem accepted_nonceOut (nonce : UInt64) (msgs : List (Message T)) (approve : Bool) (uid : UInt32) :
    NonceOut (accepted nonce msgs approve uid).1 (accepted nonce msgs approve uid).2 ∧
      readEnded (accepted nonce msgs approve uid).2 = false := by
  have hh := handshakeBytes_of_put (accepted_silent nonce msgs approve uid).2.2
  obtain ⟨-, -, he⟩ := sameHeard_map_send msgs
  cases approve with
  | true =>
      rw [accepted_approved] at hh ⊢
      exact ⟨.writing _ true rfl (by rw [hh]; rfl), by simp [he]⟩
  | false =>
      rw [accepted_denied] at hh ⊢
      exact ⟨.ended rfl (by rw [hh]; exact nil_prefix), he⟩

/-- In every run of a server connection the handshake puts out a part of the nonce and the chain a
part of the messages whose `Send` task has run, and nothing goes out once the reader has ended. -/
theorem run_accepted_sent {G nonce msgs approve uid} (hr : (machine T).Run G
    (accepted nonce msgs approve uid).1 (accepted nonce msgs approve uid).2 c h) :
    handshakeBytes h <+: uint64Bytes nonce ∧ chainBytes h <+: stream (runs h) ∧
      runs h <+: sends h ∧ Past Hushed h := by
  have hs : Start (accepted (T := T) nonce msgs approve uid).1 _ := .server nonce msgs approve uid
  obtain ⟨h0, he⟩ := accepted_nonceOut nonce msgs approve uid
  have hsilent := (accepted_silent nonce msgs approve uid).2.2
  have hush : HushInv (accepted (T := T) nonce msgs approve uid).1 _ :=
    ⟨fun h => (by rw [he] at h; cases h),
      Past.of_forall fun x hx _ _ => putBytes_singleton hsilent x hx⟩
  obtain ⟨-, hi, hu⟩ : c.nOwnerType = .server ∧ NonceOut c h ∧ HushInv c h :=
    hr.invariant (P := fun c h => c.nOwnerType = .server ∧ NonceOut c h ∧ HushInv c h)
      ⟨(run_accepted (h := _) (G := Mealy.free) .refl).1, h0, hush⟩ fun _ _ _ _ _ ⟨ho, hi, hu⟩ _ hn =>
      ⟨(next_readStep hn).owner.trans ho, hi.step ho hn, hu.step hn⟩
  obtain ⟨hfifo, hqueue, -, -, p, s, hc, hb, -⟩ := hs.run_chainInv hr
  refine ⟨?_, ?_, ?_, hu.hushed⟩
  · rw [← (run_accepted hr).2.1]
    exact hi.sent_prefix
  · have hfront := take_prefix 1 c.qMessagesOut
    rw [hb, hqueue, stream_append, prefix_append_right_inj]
    exact hc.prefix_front.trans (hfront.flatMap _)
  · rw [hfifo]
    exact prefix_append _ _

end Connection

end AsioNetworking
