import AsioNetworking.Connection.ReadStep

/-!
# The handshake and the reader

The invariant `Reading` ties the one outstanding read to the bytes read so far: 8 bytes of
handshake, complete frames, and at most the header of the frame whose body is awaited.
-/

namespace AsioNetworking

open List Framing

variable {T : Type}

@[simp] def validations : List (Effect T) → Nat
  | [] => 0
  | .onClientValidated :: h => validations h + 1
  | _ :: h => validations h

@[simp] theorem validations_append (h o : List (Effect T)) :
    validations (h ++ o) = validations h + validations o := by
  induction h using validations.induct <;> simp_all; omega

@[simp] def headerReads : List (Effect T) → Nat
  | [] => 0
  | .startRead .header _ :: h => headerReads h + 1
  | _ :: h => headerReads h

@[simp] theorem headerReads_append (h o : List (Effect T)) :
    headerReads (h ++ o) = headerReads h + headerReads o := by
  induction h using headerReads.induct <;> simp_all; omega

/-- A read has failed, or a wrong answer was read. -/
@[simp] def readEnded : List (Effect T) → Bool
  | [] => false
  | .readFail _ _ :: _ => true
  | .rejected :: _ => true
  | _ :: h => readEnded h

@[simp] theorem readEnded_append (h o : List (Effect T)) :
    readEnded (h ++ o) = (readEnded h || readEnded o) := by
  induction h using readEnded.induct <;> simp_all

namespace Connection

variable [IdType T]

/-! ## The invariant of the reader -/

/-- The handshake has not been read. -/
structure Unread (c : Connection T) (h : List (Effect T)) : Prop where
  pushes : pushes h = []
  headers : headerReads h = 0
  validations : validations h = 0
  temp : c.msgTemporaryIn = .default
  answers : c.nOwnerType = .client → answers h = [] ∧ c.answering = 0

/-- The bytes read are the handshake `hs`, the frames `fs` and the incomplete frame `rest`. -/
structure Heard (c : Connection T) (h : List (Effect T)) (hs : List UInt8)
    (fs : List (Frame (frameFormat T))) (rest : List UInt8) : Prop where
  length : hs.length = 8
  took : tookBytes h = hs ++ join fs ++ rest
  pushes : pushes h = receive [] fs
  answers : c.nOwnerType = .client → answers h = [uint64Bytes (scramble (uint64OfBytes hs))]

/-- The handshake is over: a client's answer is written, a server has found `hs` right. -/
structure Passed (c : Connection T) (h : List (Effect T)) (hs : List UInt8) : Prop where
  headers : headerReads h = (pushes h).length + 1
  client : c.nOwnerType = .client → validations h = 0 ∧ c.answering = 0
  server : c.nOwnerType = .server → validations h = 1 ∧ hs = uint64Bytes c.nHandshakeCheck

/-- The handshake has been read and is not over. -/
structure Halfway (c : Connection T) (h : List (Effect T)) (hs : List UInt8) : Prop where
  heard : Heard c h hs [] []
  headers : headerReads h = 0
  validations : validations h = 0
  temp : c.msgTemporaryIn = .default

/-- Where the handshake and the reader are. -/
inductive Reading (c : Connection T) (h : List (Effect T)) : Prop where
  | connecting : c.nOwnerType = .client → c.connecting = true → c.reads = [] →
      readEnded h = false → tookBytes h = [] → Unread c h → Reading c h
  | awaiting (live) : c.connecting = false → c.reads = [⟨.validation, 8, live⟩] →
      readEnded h = false → tookBytes h = [] → Unread c h → Reading c h
  | lost : c.connecting = false → c.reads = [] → (tookBytes h).length < 8 → Unread c h →
      Reading c h
  | answering (hs) : c.nOwnerType = .client → c.connecting = false → c.reads = [] →
      readEnded h = false → c.answering = 1 → Halfway c h hs → Reading c h
  | refused (hs) : c.connecting = false → c.reads = [] →
      (c.nOwnerType = .client → c.answering = 0) → Halfway c h hs → Reading c h
  | header (hs fs live) : c.connecting = false →
      c.reads = [⟨.header, sizeofHeader T, live⟩] → readEnded h = false → Heard c h hs fs [] →
      Passed c h hs → c.msgTemporaryIn.body = carried [] fs → Reading c h
  | body (hs fs bs live) : c.connecting = false →
      c.reads = [⟨.body, (MessageHeader.ofBytes (T := T) bs).size.toNat - 8, live⟩] →
      readEnded h = false → Heard c h hs fs bs → Passed c h hs → bs.length = sizeofHeader T →
      (MessageHeader.ofBytes (T := T) bs).size > 8 → c.msgTemporaryIn.header = .ofBytes bs →
      Reading c h
  | ended (hs fs rest) : c.connecting = false → c.reads = [] → Heard c h hs fs rest →
      Passed c h hs → split (frameFormat T) rest = none → Reading c h

/-- What an outstanding read waits for. -/
inductive Awaits (c : Connection T) (h : List (Effect T)) : ReadOp → Prop where
  | validation (live) : tookBytes h = [] → Unread c h → Awaits c h ⟨.validation, 8, live⟩
  | header (hs fs live) : Heard c h hs fs [] → Passed c h hs →
      c.msgTemporaryIn.body = carried [] fs → Awaits c h ⟨.header, sizeofHeader T, live⟩
  | body (hs fs bs live) : Heard c h hs fs bs → Passed c h hs → bs.length = sizeofHeader T →
      (MessageHeader.ofBytes (T := T) bs).size > 8 → c.msgTemporaryIn.header = .ofBytes bs →
      Awaits c h ⟨.body, (MessageHeader.ofBytes (T := T) bs).size.toNat - 8, live⟩

def frameLen (m : Message T) : Nat := sizeofHeader T + (m.header.size.toNat - 8)

/-- The reader starts nothing, and passes nothing on, after it has ended; a header is read where
the frames of the messages passed on so far end; messages come after the one validation. -/
def Orderly (owner : Owner) (past : List (Effect T)) : Effect T → Prop
  | .startRead .header _ => readEnded past = false ∧ headerReads past = (pushes past).length ∧
      (tookBytes past).length = 8 + ((pushes past).map frameLen).sum
  | .startRead _ _ | .took _ _ => readEnded past = false
  | .push _ _ => readEnded past = false ∧ (owner = .server → validations past = 1)
  | .onClientValidated => readEnded past = false ∧ validations past = 0
  | _ => True

/-! ## What the invariant depends on -/

/-- The parts of the state that `Unread`, `Heard`, `Passed` and `Halfway` speak about, but for the
temporary message. -/
structure SameInput (c c' : Connection T) : Prop where
  owner : c'.nOwnerType = c.nOwnerType
  check : c'.nHandshakeCheck = c.nHandshakeCheck
  answering : c.nOwnerType = .client → c'.answering = c.answering

/-- The parts of the history that they speak about, but for the bytes taken. -/
structure SameHeard (h h' : List (Effect T)) : Prop where
  pushes : pushes h' = pushes h
  headers : headerReads h' = headerReads h
  validations : validations h' = validations h
  answers : answers h' = answers h

variable {c c' : Connection T} {h h' : List (Effect T)} {hs : List UInt8}
  {fs : List (Frame (frameFormat T))} {rest : List UInt8}

theorem Unread.congr (hu : Unread c h) (hc : SameInput c c')
    (ht : c'.msgTemporaryIn = c.msgTemporaryIn) (hh : SameHeard h h') : Unread c' h' :=
  ⟨hh.pushes.trans hu.pushes, hh.headers.trans hu.headers,
    hh.validations.trans hu.validations, ht.trans hu.temp, fun ho => by
      rw [hc.owner] at ho
      exact ⟨hh.answers.trans (hu.answers ho).1, (hc.answering ho).trans (hu.answers ho).2⟩⟩

theorem Heard.more {bs} (hu : Heard c h hs fs rest) (ho : c'.nOwnerType = c.nOwnerType)
    (ht : tookBytes h' = tookBytes h ++ bs) (hh : SameHeard h h') :
    Heard c' h' hs fs (rest ++ bs) :=
  ⟨hu.length, by rw [ht, hu.took, append_assoc], hh.pushes.trans hu.pushes, fun hcl => by
    rw [ho] at hcl
    exact hh.answers.trans (hu.answers hcl)⟩

theorem Heard.congr (hu : Heard c h hs fs rest) (ho : c'.nOwnerType = c.nOwnerType)
    (ht : tookBytes h' = tookBytes h) (hh : SameHeard h h') : Heard c' h' hs fs rest := by
  have hm := hu.more ho (ht.trans (append_nil _).symm) hh
  rwa [append_nil] at hm

omit [IdType T] in
theorem Passed.congr (hu : Passed c h hs) (hc : SameInput c c') (hh : SameHeard h h') :
    Passed c' h' hs := by
  refine ⟨by rw [hh.headers, hh.pushes, hu.headers], fun ho => ?_, fun ho => ?_⟩
  · rw [hc.owner] at ho
    exact ⟨hh.validations.trans (hu.client ho).1, (hc.answering ho).trans (hu.client ho).2⟩
  · rw [hc.owner] at ho
    exact ⟨hh.validations.trans (hu.server ho).1, by rw [hc.check, (hu.server ho).2]⟩

theorem Halfway.congr (hu : Halfway c h hs) (ho : c'.nOwnerType = c.nOwnerType)
    (ht : c'.msgTemporaryIn = c.msgTemporaryIn) (hto : tookBytes h' = tookBytes h)
    (hh : SameHeard h h') : Halfway c' h' hs :=
  ⟨hu.heard.congr ho hto hh, hh.headers.trans hu.headers, hh.validations.trans hu.validations,
    ht.trans hu.temp⟩

theorem Reading.congr (hr : Reading c h) (hc : SameInput c c')
    (ht : c'.msgTemporaryIn = c.msgTemporaryIn) (hcn : c'.connecting = c.connecting)
    (hrd : c'.reads = c.reads) (hto : tookBytes h' = tookBytes h) (hh : SameHeard h h')
    (he : readEnded h' = readEnded h) : Reading c' h' := by
  cases hr with
  | connecting ho hcon hre hend hz hu =>
      exact .connecting (hc.owner.trans ho) (hcn.trans hcon) (hrd.trans hre) (he.trans hend)
        (hto.trans hz) (hu.congr hc ht hh)
  | awaiting live hcon hre hend hz hu =>
      exact .awaiting live (hcn.trans hcon) (hrd.trans hre) (he.trans hend) (hto.trans hz)
        (hu.congr hc ht hh)
  | lost hcon hre hz hu =>
      exact .lost (hcn.trans hcon) (hrd.trans hre) (by rw [hto]; exact hz) (hu.congr hc ht hh)
  | answering hs ho hcon hre hend ha hu =>
      exact .answering hs (hc.owner.trans ho) (hcn.trans hcon) (hrd.trans hre) (he.trans hend)
        ((hc.answering ho).trans ha) (hu.congr hc.owner ht hto hh)
  | refused hs hcon hre ha hu =>
      refine .refused hs (hcn.trans hcon) (hrd.trans hre) (fun ho => ?_)
        (hu.congr hc.owner ht hto hh)
      rw [hc.owner] at ho
      exact (hc.answering ho).trans (ha ho)
  | header hs fs live hcon hre hend hu hp hb =>
      exact .header hs fs live (hcn.trans hcon) (hrd.trans hre) (he.trans hend)
        (hu.congr hc.owner hto hh) (hp.congr hc hh) (by rw [ht, hb])
  | body hs fs bs live hcon hre hend hu hp hl hsz hth =>
      exact .body hs fs bs live (hcn.trans hcon) (hrd.trans hre) (he.trans hend)
        (hu.congr hc.owner hto hh) (hp.congr hc hh) hl hsz (by rw [ht, hth])
  | ended hs fs rest hcon hre hu hp hsp =>
      exact .ended hs fs rest (hcn.trans hcon) (hrd.trans hre) (hu.congr hc.owner hto hh)
        (hp.congr hc hh) hsp

omit [IdType T] in
theorem offReader_projections {o : List (Effect T)} (ho : ∀ x ∈ o, x.onReader = false) :
    tookBytes o = [] ∧ pushes o = [] ∧ headerReads o = 0 ∧ validations o = 0 ∧ answers o = [] ∧
      readEnded o = false := by
  induction o with
  | nil => simp
  | cons x o ih =>
      obtain ⟨h1, h2, h3, h4, h5, h6⟩ := ih fun y hy => ho y (mem_cons_of_mem _ hy)
      have hx := ho x mem_cons_self
      cases x with
      | startWrite kind bytes => cases kind <;> simp_all [Effect.onReader]
      | _ => simp_all [Effect.onReader]

omit [IdType T] in
theorem SameHeard.of_offReader {o : List (Effect T)} (ho : ∀ x ∈ o, x.onReader = false) :
    tookBytes (h ++ o) = tookBytes h ∧ SameHeard h (h ++ o) ∧
      readEnded (h ++ o) = readEnded h := by
  obtain ⟨h1, h2, h3, h4, h5, h6⟩ := offReader_projections ho
  exact ⟨by simp [h1], ⟨by simp [h2], by simp [h3], by simp [h4], by simp [h5]⟩, by simp [h6]⟩

/-! ## Steps of the reader -/

theorem uint64Bytes_uint64OfBytes {bs : List UInt8} (hl : bs.length = 8) :
    uint64Bytes (uint64OfBytes bs) = bs := by
  have hlt := LittleEndian.decode_lt bs
  rw [hl] at hlt
  rw [uint64Bytes, uint64OfBytes, UInt64.toNat_ofNat_of_lt' hlt, ← hl]
  exact LittleEndian.encode_decode bs

theorem uint64OfBytes_uint64Bytes (n : UInt64) : uint64OfBytes (uint64Bytes n) = n := by
  have hlt := n.toNat_lt
  rw [uint64Bytes, uint64OfBytes, LittleEndian.decode_encode 8 _ (by omega), UInt64.ofNat_toNat]

@[simp] theorem length_resize (bs : List UInt8) (n : Nat) : (resize bs n).length = n := by
  simp only [resize, length_append, length_take, length_replicate]; omega

omit [IdType T] in
theorem toNat_sub_eight {n : UInt32} (h : n > 8) : (n - 8).toNat = n.toNat - 8 :=
  UInt32.toNat_sub_of_le _ _ (UInt32.le_of_lt h)

/-- The frames read so far are as long as the messages made of them declare. -/
theorem length_join (body : List UInt8) (fs : List (Frame (frameFormat T))) :
    (join fs).length = ((receive body fs).map frameLen).sum := by
  induction fs generalizing body with
  | nil => rfl
  | cons f fs ih =>
      have hf : f.bytes.length = sizeofHeader T + ((frameHeader f).size.toNat - 8) :=
        f.length_bytes
      simp only [join_cons, length_append, receive, map_cons, sum_cons, frameLen, hf]
      rw [ih]

structure ReadInv (c : Connection T) (h : List (Effect T)) : Prop where
  reading : Reading c h
  orderly : Past (Orderly c.nOwnerType) h

theorem length_took_of_heard (hu : Heard c h hs fs []) :
    (tookBytes h).length = 8 + ((pushes h).map frameLen).sum := by
  rw [hu.took, hu.pushes, ← length_join, append_nil, length_append, hu.length]

theorem Reading.awaits {op l₁ l₂} (hr : Reading c h) (he : c.reads = l₁ ++ op :: l₂) :
    l₁ = [] ∧ l₂ = [] ∧ c.connecting = false ∧ readEnded h = false ∧ Awaits c h op := by
  have only {op' : ReadOp} (hre : c.reads = [op']) : l₁ = [] ∧ l₂ = [] ∧ op' = op := by
    rcases append_eq_singleton_iff.mp (he.symm.trans hre) with ⟨h₁, h₂⟩ | ⟨_, h₂⟩
    · simp only [cons.injEq] at h₂
      exact ⟨h₁, h₂.2, h₂.1.symm⟩
    · cases h₂
  cases hr with
  | connecting _ _ hre _ _ _ => simp [hre] at he
  | lost _ hre _ _ => simp [hre] at he
  | answering _ _ _ hre _ _ _ => simp [hre] at he
  | refused _ _ hre _ _ => simp [hre] at he
  | ended _ _ _ _ hre _ _ _ => simp [hre] at he
  | awaiting live hcn hre hend hz hu =>
      obtain ⟨h₁, h₂, rfl⟩ := only hre
      exact ⟨h₁, h₂, hcn, hend, .validation live hz hu⟩
  | header hs fs live hcn hre hend hu hp ht =>
      obtain ⟨h₁, h₂, rfl⟩ := only hre
      exact ⟨h₁, h₂, hcn, hend, .header hs fs live hu hp ht⟩
  | body hs fs bs live hcn hre hend hu hp hl hsz ht =>
      obtain ⟨h₁, h₂, rfl⟩ := only hre
      exact ⟨h₁, h₂, hcn, hend, .body hs fs bs live hu hp hl hsz ht⟩

theorem ReadInv.addToIncoming {c₁ : Connection T} {k bs} {f : Frame (frameFormat T)}
    (hp : Past (Orderly c.nOwnerType) h) (hend : readEnded h = false)
    (hu : Heard c h hs fs rest) (hpass : Passed c h hs) (hc : SameInput c c₁)
    (hcn : c₁.connecting = false) (hrd : c₁.reads = []) (hf : rest ++ bs = f.bytes)
    (ht : [c₁.msgTemporaryIn] = receive (carried [] fs) [f]) :
    ReadInv c₁.addToIncomingMessageQueue.1 (h ++ .took k bs :: c₁.addToIncomingMessageQueue.2) := by
  obtain ⟨r, he⟩ : ∃ r, c₁.addToIncomingMessageQueue =
      ({ c₁ with reads := [⟨.header, sizeofHeader T, c₁.socketOpen && c₁.socketConnected⟩] },
        [.push r c₁.msgTemporaryIn, .startRead .header (sizeofHeader T)]) := by
    simp only [addToIncomingMessageQueue, Result.andThen, readHeader, startRead, hrd]
    exact ⟨_, rfl⟩
  rw [he]
  have hu' : Heard c (h ++ [.took k bs, .push r c₁.msgTemporaryIn]) hs (fs ++ [f]) [] :=
    ⟨hu.length, by simp [hu.took, ← hf], by simp [hu.pushes, receive_append, ht],
      fun ho => by simpa using hu.answers ho⟩
  have hbody : c₁.msgTemporaryIn.body = carried [] (fs ++ [f]) := by
    simp only [receive, cons.injEq, and_true] at ht
    simp [carried_append, carried, ht]
  refine ⟨.header hs (fs ++ [f]) (c₁.socketOpen && c₁.socketConnected) hcn rfl (by simp [hend]) ?_ ?_
    hbody, ?_⟩
  · exact ⟨hu.length, by simpa using hu'.took, by simpa using hu'.pushes, fun ho => by
      simpa using hu.answers (hc.owner ▸ ho)⟩
  · refine ⟨by simp [hpass.headers], fun ho => ?_, fun ho => ?_⟩
    · have ho' : c.nOwnerType = .client := hc.owner ▸ ho
      exact ⟨by simpa using (hpass.client ho').1, (hc.answering ho').trans (hpass.client ho').2⟩
    · have ho' : c.nOwnerType = .server := hc.owner ▸ ho
      exact ⟨by simpa using (hpass.server ho').1, by
        simpa [hc.check] using (hpass.server ho').2⟩
  · have hlen := length_took_of_heard hu'
    have hown : Connection.nOwnerType { c₁ with reads := [⟨.header, sizeofHeader T,
        c₁.socketOpen && c₁.socketConnected⟩] } = c.nOwnerType := hc.owner
    rw [hown]
    refine past_append.mpr ⟨hp, ?_⟩
    simp only [past_cons, past_nil, and_true, append_nil]
    refine ⟨hend, ⟨by simp [hend], fun ho => by simpa using (hpass.server ho).1⟩, ?_, ?_, ?_⟩
    · simp [hend]
    · simp [hpass.headers]
    · simpa using hlen

/-- The header of the next frame is read: its body is awaited, or it is passed on at once. -/
theorem ReadInv.onReadHeader {c₁ : Connection T} {bs}
    (hp : Past (Orderly c.nOwnerType) h) (hend : readEnded h = false)
    (hu : Heard c h hs fs []) (hpass : Passed c h hs) (hc : SameInput c c₁)
    (hcn : c₁.connecting = false) (hrd : c₁.reads = [])
    (ht : c₁.msgTemporaryIn.body = carried [] fs) (hl : bs.length = sizeofHeader T) :
    ReadInv (c₁.onReadHeader bs).1 (h ++ .took .header bs :: (c₁.onReadHeader bs).2) := by
  unfold Connection.onReadHeader
  simp only
  split
  · rename_i hsz
    refine ⟨.body hs fs bs (c₁.socketOpen && c₁.socketConnected) hcn ?_ (by simp [hend]) ?_ ?_ hl hsz
      rfl, ?_⟩
    · simp [hrd, toNat_sub_eight hsz]
    · exact ⟨hu.length, by simp [hu.took], by simp [hu.pushes],
        fun ho => by simpa using hu.answers (hc.owner ▸ ho)⟩
    · refine ⟨by simp [hpass.headers], fun ho => ?_, fun ho => ?_⟩
      · have ho' : c.nOwnerType = .client := hc.owner ▸ ho
        exact ⟨by simpa using (hpass.client ho').1,
          (hc.answering ho').trans (hpass.client ho').2⟩
      · have ho' : c.nOwnerType = .server := hc.owner ▸ ho
        exact ⟨by simpa using (hpass.server ho').1, by simpa [hc.check] using (hpass.server ho').2⟩
    · refine past_append.mpr ⟨?_, ?_⟩
      · have hown : (readBody _).1.nOwnerType = c.nOwnerType := hc.owner
        exact hown ▸ hp
      · simp [past_cons, Orderly, hend]
  · rename_i hsz
    have hz : (MessageHeader.ofBytes (T := T) bs).size.toNat - 8 = 0 := by
      have : ¬ 8 < (MessageHeader.ofBytes (T := T) bs).size.toNat := hsz
      omega
    refine ReadInv.addToIncoming (f := ⟨bs, [], hl, hz.symm⟩) hp hend hu hpass
      ⟨hc.owner, hc.check, hc.answering⟩ hcn hrd (by simp [Frame.bytes]) ?_
    simp [receive, frameHeader, hsz, ht]

/-- The handshake is read: a client answers, a server compares. -/
theorem ReadInv.onReadValidation {c₁ : Connection T} {bs}
    (hp : Past (Orderly c.nOwnerType) h) (hend : readEnded h = false) (hz : tookBytes h = [])
    (hu : Unread c h) (hc : SameInput c c₁) (htmp : c₁.msgTemporaryIn = c.msgTemporaryIn)
    (hcn : c₁.connecting = false) (hrd : c₁.reads = []) (hl : bs.length = 8) :
    ReadInv (c₁.onReadValidation bs).1 (h ++ .took .validation bs :: (c₁.onReadValidation bs).2) := by
  unfold Connection.onReadValidation
  simp only
  split
  · rename_i ho
    have ho' : c.nOwnerType = .client := hc.owner ▸ ho
    refine ⟨.answering bs ho hcn hrd (by simp [hend]) ?_ ?_, ?_⟩
    · have := (hc.answering ho').trans (hu.answers ho').2
      simp only [answering, answerWrites] at this
      simp [answering, answerWrites, this]
    · exact ⟨⟨hl, by simp [hz], by simp [hu.pushes, receive], fun _ => by simp [(hu.answers ho').1]⟩,
        by simp [hu.headers], by simp [hu.validations], htmp.trans hu.temp⟩
    · refine past_append.mpr ⟨?_, ?_⟩
      · have hown : (writeValidation _).1.nOwnerType = c.nOwnerType := hc.owner
        exact hown ▸ hp
      · simp [past_cons, Orderly, hend]
  · rename_i ho
    have ho' : c.nOwnerType = .server := hc.owner ▸ ho
    split
    · rename_i hk
      have hbs : bs = uint64Bytes c₁.nHandshakeCheck := by
        rw [← hk, uint64Bytes_uint64OfBytes hl]
      refine ⟨.header bs [] (c₁.socketOpen && c₁.socketConnected) hcn ?_ ?_ ?_ ?_ ?_, ?_⟩
      · simp [hrd]
      · simp [hend]
      · exact ⟨hl, by simp [hz], by simp [hu.pushes, receive], fun hcl => by simp [ho] at hcl⟩
      · refine ⟨by simp [hu.headers, hu.pushes], fun hcl => by simp [ho] at hcl, fun _ => ?_⟩
        exact ⟨by simp [hu.validations], hbs⟩
      · simp [htmp, hu.temp, Message.default, carried]
      · refine past_append.mpr ⟨?_, ?_⟩
        · have hown : (readHeader _).1.nOwnerType = c.nOwnerType := hc.owner
          exact hown ▸ hp
        · simp [past_cons, Orderly, hend, hu.validations, hu.headers, hu.pushes, hz, hl]
    · refine ⟨.refused bs hcn hrd (fun hcl => by simp [close, ho] at hcl) ?_, ?_⟩
      · exact ⟨⟨hl, by simp [hz], by simp [hu.pushes, receive], fun hcl => by
            simp [close, ho] at hcl⟩,
          by simp [hu.headers], by simp [hu.validations], htmp.trans hu.temp⟩
      · refine past_append.mpr ⟨?_, ?_⟩
        · have hown : (close { c₁ with nHandshakeIn := uint64OfBytes bs }).nOwnerType =
              c.nOwnerType := hc.owner
          exact hown ▸ hp
        · simp [past_cons, Orderly, hend]

theorem ReadStep.owner {e o} (hs : ReadStep c c' e o) : c'.nOwnerType = c.nOwnerType := by
  cases hs with
  | other _ h => exact h.owner
  | took l₁ l₂ bs _ _ =>
      rename_i op _ _
      cases hk : op.kind with
      | validation =>
          simp only [onRead, onReadValidation]
          repeat' split
          all_goals rfl
      | header =>
          simp only [onRead, onReadHeader]
          split <;> rfl
      | body => rfl
  | wrote _ ws _ => simp only [onWriteValidation]; split <;> rfl
  | _ => rfl

theorem split_nil : split (frameFormat T) [] = none :=
  split_eq_none_of_lt (Or.inl (frameFormat T).headerLen_pos)

theorem ReadInv.took {op : ReadOp} {l₁ l₂ bs} (hi : ReadInv c h) (hr : c.reads = l₁ ++ op :: l₂)
    (hl : bs.length = op.size) :
    ReadInv (onRead op.kind bs { c with reads := l₁ ++ l₂ }).1
      (h ++ .took op.kind bs :: (onRead op.kind bs { c with reads := l₁ ++ l₂ }).2) := by
  obtain ⟨hread, hp⟩ := hi
  have hsame (rs) : SameInput c { c with reads := rs } := ⟨rfl, rfl, fun _ => rfl⟩
  obtain ⟨rfl, rfl, hcn, hend, haw⟩ := hread.awaits hr
  cases haw with
  | validation live hz hu =>
      exact ReadInv.onReadValidation hp hend hz hu (hsame _) rfl hcn rfl hl
  | header hs fs live hu hpass ht =>
      exact ReadInv.onReadHeader hp hend hu hpass (hsame _) hcn rfl ht hl
  | body hs fs hd live hu hpass hdl hsz ht =>
      refine ReadInv.addToIncoming (f := ⟨hd, bs, hdl, hl⟩) hp hend hu hpass
        ⟨rfl, rfl, fun _ => rfl⟩ hcn rfl rfl ?_
      simp [receive, frameHeader, ht, hsz]

theorem ReadInv.readFail {op : ReadOp} {l₁ l₂ bs} (hi : ReadInv c h)
    (hr : c.reads = l₁ ++ op :: l₂) (hl : bs = [] ∨ bs.length < op.size) :
    ReadInv (close { c with reads := l₁ ++ l₂ }) (h ++ [.readFail op.kind bs]) := by
  obtain ⟨hread, hp⟩ := hi
  have hc : SameInput c (close { c with reads := l₁ ++ l₂ }) := ⟨rfl, rfl, fun _ => rfl⟩
  have hh : SameHeard h (h ++ [.readFail op.kind bs]) := ⟨by simp, by simp, by simp, by simp⟩
  have hto : tookBytes (h ++ [.readFail op.kind bs]) = tookBytes h ++ bs := by simp
  refine ⟨?_, past_append.mpr ⟨hp, by simp [past_cons, Orderly]⟩⟩
  obtain ⟨rfl, rfl, hcn, hend, haw⟩ := hread.awaits hr
  cases haw with
  | validation live hz hu =>
      refine .lost hcn rfl ?_ (hu.congr hc rfl hh)
      rw [hto, hz, nil_append]
      rcases hl with rfl | hl
      · exact Nat.zero_lt_succ 7
      · exact hl
  | header hs fs live hu hpass ht =>
      refine .ended hs fs bs hcn rfl (hu.more rfl hto hh) (hpass.congr hc hh) ?_
      rcases hl with rfl | hl
      · exact split_nil
      · exact split_eq_none_of_lt (Or.inl hl)
  | body hs fs hd live hu hpass hdl hsz ht =>
      refine .ended hs fs (hd ++ bs) hcn rfl (hu.more rfl hto hh) (hpass.congr hc hh) ?_
      have htake : (hd ++ bs).take (frameFormat T).headerLen = hd := take_left' hdl
      have h8 : 8 < (MessageHeader.ofBytes (T := T) hd).size.toNat := hsz
      refine split_eq_none_of_lt (Or.inr ?_)
      rw [htake, length_append, hdl]
      simp only [frameFormat]
      rcases hl with rfl | hl
      · simp only [length_nil]; omega
      · simp only at hl; omega

omit [IdType T] in
theorem role (c : Connection T) : c.nOwnerType = .client ∨ c.nOwnerType = .server := by
  cases c.nOwnerType with
  | client => exact Or.inl rfl
  | server => exact Or.inr rfl

/-- A client with an outstanding answer has read the handshake and nothing else. -/
theorem Reading.of_answering (hr : Reading c h) (ho : c.nOwnerType = .client)
    (ha : 0 < c.answering) :
    ∃ hs, c.connecting = false ∧ c.reads = [] ∧ readEnded h = false ∧ c.answering = 1 ∧
      Halfway c h hs := by
  cases hr with
  | answering hs _ hcn hre hend ha1 hw => exact ⟨hs, hcn, hre, hend, ha1, hw⟩
  | connecting _ _ _ _ _ hu => have := (hu.answers ho).2; omega
  | awaiting _ _ _ _ _ hu => have := (hu.answers ho).2; omega
  | lost _ _ _ hu => have := (hu.answers ho).2; omega
  | refused _ _ _ hz _ => have := hz ho; omega
  | header _ _ _ _ _ _ _ hpass _ => have := (hpass.client ho).2; omega
  | body _ _ _ _ _ _ _ _ hpass _ _ _ => have := (hpass.client ho).2; omega
  | ended _ _ _ _ _ _ hpass _ => have := (hpass.client ho).2; omega

/-- The answer is written: a client goes on to read headers, a server does nothing. -/
theorem ReadInv.wrote {ws} (hi : ReadInv c h)
    (ha : answering { c with writes := ws } + 1 = c.answering) :
    ReadInv (onWriteValidation { c with writes := ws }).1
      (h ++ .wrote .validation :: (onWriteValidation { c with writes := ws }).2) := by
  obtain ⟨hread, hp⟩ := hi
  rcases c.role with ho | ho
  · have he : onWriteValidation { c with writes := ws } = readHeader { c with writes := ws } := by
      simp only [onWriteValidation, ho]
    rw [he]
    obtain ⟨hs, hcn, hre, hend, ha1, hw⟩ := hread.of_answering ho (by omega)
    have ha0 : answering { c with writes := ws } = 0 := by omega
    refine ⟨.header hs [] (c.socketOpen && c.socketConnected) hcn ?_ ?_ ?_ ?_ ?_,
      past_append.mpr ⟨hp, ?_⟩⟩
    · simp [hre]
    · simp [hend]
    · exact ⟨hw.heard.length, by simp [hw.heard.took], by simp [hw.heard.pushes],
        fun _ => by simp [hw.heard.answers ho]⟩
    · exact ⟨by simp [hw.headers, hw.heard.pushes, receive],
        fun _ => ⟨by simp [hw.validations], ha0⟩, fun hs' => by simp [ho] at hs'⟩
    · simp [hw.temp, Message.default, carried]
    · simp [past_cons, Orderly, hend, hw.headers, hw.heard.pushes, hw.heard.took,
        hw.heard.length, receive]
  · have he : onWriteValidation { c with writes := ws } = ({ c with writes := ws }, []) := by
      simp only [onWriteValidation, ho]
    rw [he]
    have hh : SameHeard h (h ++ [.wrote .validation]) := ⟨by simp, by simp, by simp, by simp⟩
    exact ⟨hread.congr ⟨rfl, rfl, fun hcl => by simp [ho] at hcl⟩ rfl rfl rfl (by simp) hh
        (by simp),
      past_append.mpr ⟨hp, by simp [past_cons, Orderly]⟩⟩

theorem ReadInv.writeFail {ws} (hi : ReadInv c h)
    (ha : answering { c with writes := ws } + 1 = c.answering) :
    ReadInv (close { c with writes := ws }) (h ++ [.writeFail .validation]) := by
  obtain ⟨hread, hp⟩ := hi
  have hh : SameHeard h (h ++ [.writeFail .validation]) := ⟨by simp, by simp, by simp, by simp⟩
  refine ⟨?_, past_append.mpr ⟨hp, by simp [past_cons, Orderly]⟩⟩
  rcases c.role with ho | ho
  · obtain ⟨hs, hcn, hre, hend, ha1, hw⟩ := hread.of_answering ho (by omega)
    have ha0 : answering { c with writes := ws } = 0 := by omega
    exact .refused hs hcn hre (fun _ => ha0) (hw.congr rfl rfl (by simp) hh)
  · exact hread.congr ⟨rfl, rfl, fun hcl => by simp [ho] at hcl⟩ rfl rfl rfl (by simp) hh (by simp)

theorem ReadInv.step {e o} (hi : ReadInv c h) (hs : ReadStep c c' e o) : ReadInv c' (h ++ o) := by
  cases hs with
  | other ho hsame =>
      obtain ⟨hto, hh, he⟩ := SameHeard.of_offReader (h := h) ho
      refine ⟨hi.reading.congr ⟨hsame.owner, hsame.check, fun _ => hsame.answering⟩ hsame.temp
        hsame.connecting hsame.reads hto hh he, ?_⟩
      rw [hsame.owner]
      refine past_append.mpr ⟨hi.orderly, Past.of_forall fun x hx p => ?_⟩
      have := ho x hx
      cases x <;> simp_all [Orderly, Effect.onReader]
  | connected _ hcon =>
      obtain ⟨hread, hp⟩ := hi
      cases hread with
      | connecting _ _ hre hend hz hu =>
          have hh : SameHeard h (h ++ [.startRead .validation 8]) :=
            ⟨by simp, by simp, by simp, by simp⟩
          refine ⟨.awaiting (c.socketOpen && c.socketConnected) rfl ?_ (by simp [hend])
            (by simp [hz]) (hu.congr ⟨rfl, rfl, fun _ => rfl⟩ rfl hh), ?_⟩
          · simp [hre]
          · exact past_append.mpr ⟨hp, by simp [past_cons, Orderly, hend]⟩
      | _ => simp_all
  | connectFailed _ hcon =>
      obtain ⟨hread, hp⟩ := hi
      rw [append_nil]
      cases hread with
      | connecting _ _ hre hend hz hu =>
          exact ⟨.lost rfl hre (by simp [hz]) (hu.congr ⟨rfl, rfl, fun _ => rfl⟩ rfl
            ⟨rfl, rfl, rfl, rfl⟩), hp⟩
      | _ => simp_all
  | took l₁ l₂ bs hr hl => exact hi.took hr hl
  | readFail l₁ l₂ bs hr hl => exact hi.readFail hr hl
  | wrote _ ws ha => exact hi.wrote ha
  | writeFail _ ws ha => exact hi.writeFail ha

end Connection

end AsioNetworking
