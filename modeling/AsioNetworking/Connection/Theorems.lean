import AsioNetworking.Connection.Writing

/-!
# The message chain and the reader, over whole runs
-/

namespace AsioNetworking

open List Framing

variable {T : Type} [IdType T]

namespace Connection

variable {c₀ c : Connection T} {h₀ h : List (Effect T)}

/-! ## The message chain -/

theorem Chain.length_writes {q w f p s} (hc : Chain (T := T) q w f p s) (hf : f = false) :
    w.length = if q = [] then 0 else 1 := by
  cases hc with
  | idle => rfl
  | header => rfl
  | body => rfl
  | stuck => cases hf

theorem Chain.prefix_front {q w f p s} (hc : Chain (T := T) q w f p s) : p <+: stream (q.take 1) := by
  cases hc with
  | idle => exact nil_prefix
  | header m q p rest live hp =>
      simp only [take_succ_cons, take_zero, stream_cons, stream_nil, append_nil, Message.toBytes,
        ← hp, append_assoc]
      exact prefix_append _ _
  | body m q p rest live hp =>
      simp only [take_succ_cons, take_zero, stream_cons, stream_nil, append_nil, Message.toBytes,
        ← hp, ← append_assoc]
      exact prefix_append _ _
  | stuck m q p s hp hs => simpa using hp.trans hs

/-- In every run: the messages posted are those taken off the queue, those in it and those whose
task has not run, in this order; the chain has put out the messages taken off and a part of the
front message; unless a write has failed, one write is outstanding exactly when the queue is not
empty; `front` and `pop_front` meet no empty queue; after a failed write nothing is started. -/
theorem write_chain (hs : Start c₀ h₀) (hr : (machine T).Run Mealy.free c₀ h₀ c h) :
    (runs h = pops h ++ c.qMessagesOut ∧ sends h = runs h ++ c.pendingSends) ∧
      (∃ p, chainBytes h = stream (pops h) ++ p ∧ p <+: stream (c.qMessagesOut.take 1)) ∧
      (chainFailed h = false → c.chainWrites.length = if c.qMessagesOut = [] then 0 else 1) ∧
      Effect.emptyQueue ∉ h ∧
      ∀ h₁ x h₂, h = h₁ ++ x :: h₂ → chainFailed h₁ = true → x.startsChain = false := by
  obtain ⟨hfifo, hqueue, hne, hquiet, p, s, hc, hb, -⟩ := hs.run_chainInv hr
  refine ⟨⟨hqueue, hfifo⟩, ⟨p, hb, hc.prefix_front⟩, fun hf => hc.length_writes hf, hne, ?_⟩
  intro h₁ x h₂ he hf
  have := hquiet h₁ x h₂ he
  cases hx : x.startsChain with
  | false => rfl
  | true => rw [this hx] at hf; cases hf

/-- A client answers the nonce 7, sends a message without and a message with a body, and has put
one byte of the second body on the wire. -/
def twoMessages : Result UInt32 :=
  ((machine UInt32).exec Mealy.free connected [] [.established, .onConnect true,
    .readOk 0 (uint64Bytes 7), .put 0 8, .writeOk 0, .send ⟨⟨1, 8⟩, []⟩, .send ⟨⟨2, 10⟩, [5, 6]⟩,
    .runTask, .put 0 3, .runTask, .put 0 5, .writeOk 0, .put 0 8, .writeOk 0, .put 0 1]).get
    (by decide +kernel)

theorem write_chain_twoMessages :
    runs twoMessages.2 = pops twoMessages.2 ++ [⟨⟨2, 10⟩, [5, 6]⟩] ∧
      twoMessages.1.chainWrites.length = 1 := by
  obtain ⟨⟨hq, -⟩, -, hone, -⟩ := write_chain (T := UInt32) .client (.of_isSome _ _ : (machine
    UInt32).Run Mealy.free connected [] twoMessages.1 twoMessages.2)
  exact ⟨hq, hone (by decide +kernel)⟩

/-! ## The reader -/

/-- Before the end of the handshake nothing is passed on. Then the bytes taken are its 8 bytes, the
frames of the messages passed on and an incomplete frame. -/
theorem Reading.handshake {c : Connection T} (hr : Reading c h) :
    (pushes h = [] ∧ validations h = 0 ∧ headerReads h = 0) ∨
      ∃ hs fs rest, Heard c h hs fs rest ∧ Passed c h hs ∧ split (frameFormat T) rest = none := by
  cases hr with
  | connecting _ _ _ _ _ hu => exact Or.inl ⟨hu.pushes, hu.validations, hu.headers⟩
  | awaiting _ _ _ _ _ hu => exact Or.inl ⟨hu.pushes, hu.validations, hu.headers⟩
  | lost _ _ _ hu => exact Or.inl ⟨hu.pushes, hu.validations, hu.headers⟩
  | answering _ _ _ _ _ _ hw => exact Or.inl ⟨hw.heard.pushes, hw.validations, hw.headers⟩
  | refused _ _ _ _ hw => exact Or.inl ⟨hw.heard.pushes, hw.validations, hw.headers⟩
  | header hs fs _ _ _ _ hu hp _ => exact Or.inr ⟨hs, fs, [], hu, hp, split_nil⟩
  | ended hs fs rest _ _ hu hp hsp => exact Or.inr ⟨hs, fs, rest, hu, hp, hsp⟩
  | body hs fs bs _ _ _ _ hu hp hl hsz _ =>
      refine Or.inr ⟨hs, fs, bs, hu, hp, split_eq_none_of_lt (Or.inr ?_)⟩
      have h8 : 8 < (MessageHeader.ofBytes (T := T) bs).size.toNat := hsz
      have htake : bs.take (frameFormat T).headerLen = bs := take_of_length_le hl.le
      rw [htake, hl]
      simp only [frameFormat]
      omega

theorem Reading.heard {c : Connection T} (hr : Reading c h)
    (hv : 0 < validations h ∨ 0 < headerReads h) :
    ∃ hs fs rest, Heard c h hs fs rest ∧ Passed c h hs ∧ split (frameFormat T) rest = none := by
  rcases hr.handshake with ⟨-, hval, hhd⟩ | hex
  · omega
  · exact hex

theorem Reading.heard_of_length {c : Connection T} (hr : Reading c h)
    (hl : 8 ≤ (tookBytes h).length) :
    ∃ hs fs rest, Heard c h hs fs rest ∧ split (frameFormat T) rest = none := by
  cases hr with
  | connecting _ _ _ _ hz _ => simp [hz] at hl
  | awaiting _ _ _ _ hz _ => simp [hz] at hl
  | lost _ _ hlt _ => omega
  | answering hs _ _ _ _ _ hw => exact ⟨hs, [], [], hw.heard, split_nil⟩
  | refused hs _ _ _ hw => exact ⟨hs, [], [], hw.heard, split_nil⟩
  | header hs fs _ _ _ _ hu _ _ => exact ⟨hs, fs, [], hu, split_nil⟩
  | ended hs fs rest _ _ hu _ hsp => exact ⟨hs, fs, rest, hu, hsp⟩
  | body hs fs bs live hcn hre hend hu hp hl hsz ht =>
      rcases (Reading.body hs fs bs live hcn hre hend hu hp hl hsz ht).handshake with
        ⟨-, -, hz⟩ | ⟨hs', fs', rest, hu', -, hsp⟩
      · have := hp.headers
        omega
      · exact ⟨hs', fs', rest, hu', hsp⟩

theorem Reading.unread_or_heard {c : Connection T} (hr : Reading c h) :
    Unread c h ∨ ∃ hs fs rest, Heard c h hs fs rest := by
  cases hr with
  | connecting _ _ _ _ _ hu => exact Or.inl hu
  | awaiting _ _ _ _ _ hu => exact Or.inl hu
  | lost _ _ _ hu => exact Or.inl hu
  | answering hs _ _ _ _ _ hw => exact Or.inr ⟨hs, _, _, hw.heard⟩
  | refused hs _ _ _ hw => exact Or.inr ⟨hs, _, _, hw.heard⟩
  | header hs fs _ _ _ _ hu _ _ => exact Or.inr ⟨hs, fs, _, hu⟩
  | body hs fs bs _ _ _ _ hu _ _ _ _ => exact Or.inr ⟨hs, fs, bs, hu⟩
  | ended hs fs rest _ _ hu _ _ => exact Or.inr ⟨hs, fs, rest, hu⟩

/-- The messages passed on are those that the frames after the handshake make. -/
theorem Reading.pushes_eq_receive {c : Connection T} (hr : Reading c h) :
    pushes h = receive [] (frames (frameFormat T) ((tookBytes h).drop 8)) := by
  by_cases hl : 8 ≤ (tookBytes h).length
  · obtain ⟨hs, fs, rest, hu, hsp⟩ := hr.heard_of_length hl
    rw [hu.pushes, hu.took, append_assoc, drop_left' hu.length, frames_join_of_none hsp]
  · rw [drop_of_length_le (by omega), frames_of_none split_nil]
    rcases hr.unread_or_heard with hu | ⟨hs, fs, rest, hu⟩
    · rw [hu.pushes, receive]
    · have hlen := hu.length
      rw [hu.took] at hl
      simp only [length_append] at hl
      omega

/-- A client that has started its answer has read the nonce that it answers. -/
theorem Reading.answered {c : Connection T} (hr : Reading c h) (ho : c.nOwnerType = .client)
    (ha : answers h ≠ []) : ∃ hs, hs.length = 8 ∧ hs <+: tookBytes h ∧
      answers h = [uint64Bytes (scramble (uint64OfBytes hs))] := by
  rcases hr.unread_or_heard with hu | ⟨hs, fs, rest, hu⟩
  · exact absurd (hu.answers ho).1 ha
  · refine ⟨hs, hu.length, ?_, hu.answers ho⟩
    rw [hu.took, append_assoc]
    exact prefix_append _ _

theorem Reading.reads {c : Connection T} (hr : Reading c h) :
    c.reads.length ≤ 1 ∧ (readEnded h = true → c.reads = []) := by
  cases hr with
  | connecting _ _ hre _ _ _ => exact ⟨by simp [hre], fun _ => hre⟩
  | awaiting _ _ hre hend _ _ => exact ⟨by simp [hre], fun he => by simp [hend] at he⟩
  | lost _ hre _ _ => exact ⟨by simp [hre], fun _ => hre⟩
  | answering _ _ _ hre _ _ _ => exact ⟨by simp [hre], fun _ => hre⟩
  | refused _ _ hre _ _ => exact ⟨by simp [hre], fun _ => hre⟩
  | header _ _ _ _ hre hend _ _ _ => exact ⟨by simp [hre], fun he => by simp [hend] at he⟩
  | body _ _ _ _ _ hre hend _ _ _ _ _ => exact ⟨by simp [hre], fun he => by simp [hend] at he⟩
  | ended _ _ _ _ hre _ _ _ => exact ⟨by simp [hre], fun _ => hre⟩

/-- The messages made of the frames carry their headers, and their bodies where they have one. -/
theorem forall₂_receive (body : List UInt8) (fs : List (Frame (frameFormat T))) :
    Forall₂ (fun m f => m.header = frameHeader f ∧ (8 < m.header.size → m.body = f.body))
      (receive body fs) fs := by
  induction fs generalizing body with
  | nil => exact .nil
  | cons f fs ih => exact .cons ⟨rfl, fun h8 => if_pos h8⟩ (ih _)

theorem map_frameLen_receive (hT : IdType.size T = 4) (body : List UInt8)
    (fs : List (Frame (frameFormat T))) :
    (receive body fs).map frameLen = fs.map fun f => max 8 (frameHeader f).size.toNat := by
  induction fs generalizing body with
  | nil => rfl
  | cons f fs ih =>
      have h8 : 8 + ((frameHeader f).size.toNat - 8) = max 8 (frameHeader f).size.toNat := by omega
      simp only [receive, map_cons, frameLen, sizeofHeader_of_size_eq_four hT, h8, ih]

/-- In every run of a validated connection, whatever bytes come: the messages passed on are the
complete frames of the bytes after the handshake; the header of a frame is read where the frames
before it end; at most one read is outstanding, and none after a failed read. -/
theorem frame_alignment (hT : IdType.size T = 4) (hs : Start c₀ h₀)
    (hr : (machine T).Run Mealy.free c₀ h₀ c h)
    (hv : 0 < validations h ∨ c.nOwnerType = .client ∧ 0 < headerReads h) :
    let fs := frames (frameFormat T) ((tookBytes h).drop 8)
    (∀ f ∈ fs, f.header.length = 8 ∧ f.body.length = (frameHeader f).size.toNat - 8) ∧
      Forall₂ (fun m f => m.header = frameHeader f ∧ (8 < m.header.size → m.body = f.body))
        (pushes h) fs ∧
      (∀ h₁ n h₂, h = h₁ ++ .startRead .header n :: h₂ → (tookBytes h₁).length =
        8 + ((fs.take (headerReads h₁)).map fun f => max 8 (frameHeader f).size.toNat).sum) ∧
      c.reads.length ≤ 1 ∧ (readEnded h = true → c.reads = []) := by
  obtain ⟨hread, hord⟩ := hs.run_readInv hr
  obtain ⟨hs, fs, rest, hu, -, hsp⟩ := hread.heard (hv.imp_right And.right)
  have hfs : frames (frameFormat T) ((tookBytes h).drop 8) = fs := by
    rw [hu.took, append_assoc, drop_left' hu.length, frames_join_of_none hsp]
  simp only [hfs]
  refine ⟨fun f _ => ⟨?_, length_frame_body f⟩, ?_, ?_, hread.reads⟩
  · rw [f.header_length]; exact sizeofHeader_of_size_eq_four hT
  · rw [hu.pushes]; exact forall₂_receive [] fs
  · intro h₁ n h₂ he
    obtain ⟨-, hk, hlen⟩ := hord _ _ _ he
    have hpush : pushes h₁ <+: receive [] fs := by
      rw [← hu.pushes, he, pushes_append]; exact prefix_append _ _
    have htake : pushes h₁ = (receive [] fs).take (headerReads h₁) := by
      rw [hk]; exact prefix_iff_eq_take.mp hpush
    rw [hlen, htake, map_take, map_frameLen_receive hT, map_take]

/-- A server connection with the nonce 7 reads the answer, a frame with two bytes of body, one whose
size is below 8, and five bytes of a third header. -/
def threeFrames : Result UInt32 :=
  ((machine UInt32).exec Mealy.free (accepted 7 [] true 10000).1 (accepted 7 [] true 10000).2
    [.readOk 0 (uint64Bytes (scramble 7)), .readOk 0 [1, 0, 0, 0, 10, 0, 0, 0], .readOk 0 [5, 6],
      .readOk 0 [2, 0, 0, 0, 3, 0, 0, 0], .readFail 0 [9, 0, 0, 0, 9]]).get (by decide +kernel)

theorem frame_alignment_threeFrames :
    Forall₂ (fun m f => m.header = frameHeader f ∧ (8 < m.header.size → m.body = f.body))
        (pushes threeFrames.2) (frames (frameFormat UInt32) ((tookBytes threeFrames.2).drop 8)) ∧
      threeFrames.1.reads = [] := by
  obtain ⟨-, hall, -, -, hend⟩ := frame_alignment rfl (.server 7 [] true 10000) (.of_isSome _ _ :
    (machine UInt32).Run Mealy.free _ _ threeFrames.1 threeFrames.2) (Or.inl (by decide +kernel))
  exact ⟨hall, hend (by decide +kernel)⟩

/-! ## One writer -/

theorem Start.one_writer {c : Connection T} (hs : Start c h) : c.writes.length ≤ 1 := by
  cases hs with
  | client => simp [connected, connectToServer, construct]
  | server nonce msgs approve uid =>
      cases approve with
      | true => simp [accepted_approved]
      | false => simp [accepted_denied, construct]

/-- The run that the events lead through never has two writes outstanding if and only if each of its
steps is `Alone`. -/
theorem one_writer_iff (hs : Start c₀ h₀) (es : List (Event T)) :
    (machine T).Always (fun c _ => c.writes.length ≤ 1) c₀ h₀ es ↔
      (machine T).Along (fun c _ e => c.Alone e) c₀ h₀ es :=
  Mealy.always_iff_along (I := fun c h => ChainInv c h ∧ ReadInv c h)
    (fun _ _ _ _ _ ⟨hc, hr⟩ hn => ⟨hc.step (next_chainStep hn), hr.step (next_readStep hn)⟩)
    (fun _ _ _ _ _ ⟨hc, hr⟩ hone hn => (next_writeStep hn).one_writer hc hr hone)
    es ⟨hs.chainInv, hs.readInv⟩ hs.one_writer

/-- A client that sends after its answer is written never has two writes outstanding. -/
theorem one_writer_iff_twoMessages :
    (machine UInt32).Always (fun c _ => c.writes.length ≤ 1) connected []
        [.established, .onConnect true, .readOk 0 (uint64Bytes 7), .put 0 8, .writeOk 0,
          .send ⟨⟨1, 8⟩, []⟩, .runTask] ↔
      (machine UInt32).Along (fun c _ e => c.Alone e) connected []
        [.established, .onConnect true, .readOk 0 (uint64Bytes 7), .put 0 8, .writeOk 0,
          .send ⟨⟨1, 8⟩, []⟩, .runTask] :=
  one_writer_iff .client _

/-- `OnClientConnection` sends a message: its task starts a header while the nonce is written. -/
def greeting : Result UInt32 :=
  ((machine UInt32).exec Mealy.free (accepted 7 [⟨⟨0, 0⟩, []⟩] true 10000).1
    (accepted 7 [⟨⟨0, 0⟩, []⟩] true 10000).2 [.runTask]).get (by decide +kernel)

theorem two_writers :
    ¬ ∀ (c₀ c : Connection UInt32) (h₀ h : List (Effect UInt32)), Start c₀ h₀ →
      (machine UInt32).Run Mealy.free c₀ h₀ c h → c.writes.length ≤ 1 := by
  intro hall
  have hone := hall _ greeting.1 _ greeting.2 (.server 7 [⟨⟨0, 0⟩, []⟩] true 10000)
    (.of_isSome _ _)
  exact absurd hone (by decide +kernel)

end Connection

end AsioNetworking
