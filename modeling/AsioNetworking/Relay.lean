import AsioNetworking.Delivery

/-!
# Relaying received messages

A message that the reader queued is given to `Send` unchanged. Its body may be one that an earlier
frame left in the temporary message, and then it is longer than its header says.
-/

namespace AsioNetworking

open List Framing Connection

variable {T : Type} [IdType T]

/-! ## Readers in sync -/

/-- A reader that gets the bytes of the messages one after the other is, after each of them, at the
end of as many frames with their ids. -/
def InSync (ms : List (Message T)) : Prop :=
  ∀ n ≤ ms.length, ∃ fs : List (Frame (frameFormat T)), stream (ms.take n) = join fs ∧
    fs.map (fun f => (frameHeader f).id) = (ms.take n).map (·.header.id)

theorem map_id_framesOf (ms : List (Message T)) (hf) :
    (framesOf ms hf).map (fun f => (frameHeader f).id) = ms.map (·.header.id) := by
  induction ms with
  | nil => rfl
  | cons m ms ih => rw [framesOf_cons, map_cons, map_cons, ih, Message.frameHeader_frame]

theorem frames_join (fs : List (Frame (frameFormat T))) : frames (frameFormat T) (join fs) = fs := by
  rw [← append_nil (join fs), frames_join_of_none split_nil]

theorem inSync_iff_framed {ms : List (Message T)} : InSync ms ↔ ∀ m ∈ ms, m.Framed := by
  constructor
  · intro hs m hm
    obtain ⟨l₁, l₂, rfl⟩ := append_of_mem hm
    obtain ⟨fs, hfs, hids⟩ := hs l₁.length (by simp)
    obtain ⟨gs, hgs, hids'⟩ := hs (l₁.length + 1) (by simp)
    simp only [take_left', take_append, take_of_length_le (Nat.le_succ _), Nat.add_sub_cancel_left,
      take_succ_cons, take_zero, stream_append, stream_cons, stream_nil, append_nil] at hfs hids hgs hids'
    -- one more message is one more frame
    have hsplit : gs = fs ++ frames (frameFormat T) m.toBytes := by
      rw [← frames_join gs, ← hgs, hfs, frames_join_append]
    have hlen := congrArg length hids
    have hlen' := congrArg length hids'
    simp only [length_map, length_append, length_singleton, hsplit] at hlen hlen'
    obtain ⟨f, hf⟩ := length_eq_one_iff.mp (show (frames (frameFormat T) m.toBytes).length = 1 by omega)
    rw [hsplit, hf, join_append, hfs] at hgs
    exact Message.framed_of_bytes (f := f) (by simpa using (append_cancel_left hgs).symm)
  · intro hf n _
    have hf' : ∀ m ∈ ms.take n, m.Framed := fun m hm => hf m (mem_of_mem_take hm)
    exact ⟨framesOf _ hf', (join_framesOf _ hf').symm, map_id_framesOf _ hf'⟩

/-! ## Queued messages -/

/-- A message queued by a connection, after the messages `before`. -/
structure Queued (T : Type) [IdType T] where
  c₀ : Connection T
  h₀ : List (Effect T)
  c : Connection T
  h : List (Effect T)
  start : Start c₀ h₀
  run : (machine T).Run Mealy.free c₀ h₀ c h
  before : List (Message T)
  msg : Message T
  after : List (Message T)
  queued : pushes h = before ++ msg :: after

/-- The message has a body of its own, or no message before it had one. -/
def Queued.Fresh (q : Queued T) : Prop :=
  q.msg.header.size > 8 ∨ ∀ m ∈ q.before, ¬ m.header.size > 8

theorem exists_of_receive {body : List UInt8} {fs : List (Frame (frameFormat T))} {l₁ m l₂}
    (h : receive body fs = l₁ ++ m :: l₂) :
    ∃ fs₁ f fs₂, fs = fs₁ ++ f :: fs₂ ∧ l₁ = receive body fs₁ ∧
      m = ⟨frameHeader f, if (frameHeader f).size > 8 then f.body else carried body fs₁⟩ := by
  induction fs generalizing body l₁ with
  | nil => simp [receive] at h
  | cons f fs ih =>
      cases l₁ with
      | nil =>
          simp only [receive, nil_append, cons.injEq] at h
          exact ⟨[], f, fs, rfl, rfl, h.1.symm⟩
      | cons x l₁ =>
          simp only [receive, cons_append, cons.injEq] at h
          obtain ⟨rfl, h⟩ := h
          obtain ⟨fs₁, g, fs₂, rfl, hl, hm⟩ := ih h
          exact ⟨f :: fs₁, g, fs₂, rfl, by rw [receive, hl], by simp only [hm, carried]⟩

theorem frame_body_ne_nil {f : Frame (frameFormat T)} (h8 : (frameHeader f).size > 8) :
    f.body ≠ [] := by
  have hlen := length_frame_body f
  have h8' : 8 < (frameHeader f).size.toNat := h8
  rw [← length_pos_iff, hlen]
  omega

theorem carried_ne_nil {body : List UInt8} (hb : body ≠ []) (fs : List (Frame (frameFormat T))) :
    carried body fs ≠ [] := by
  induction fs generalizing body with
  | nil => exact hb
  | cons f fs ih =>
      simp only [carried]
      split
      · rename_i h8
        exact ih (frame_body_ne_nil h8)
      · exact ih hb

/-- The temporary message has no body exactly as long as no frame had one. -/
theorem carried_eq_nil {fs : List (Frame (frameFormat T))} :
    carried [] fs = [] ↔ ∀ f ∈ fs, ¬ (frameHeader f).size > 8 := by
  induction fs with
  | nil => simp [carried]
  | cons f fs ih =>
      simp only [carried, forall_mem_cons]
      split
      · rename_i h8
        exact ⟨fun hc => absurd hc (carried_ne_nil (frame_body_ne_nil h8) fs),
          fun hall => absurd h8 hall.1⟩
      · rename_i h8
        rw [ih]
        exact ⟨fun hall => ⟨h8, hall⟩, fun hall => hall.2⟩

theorem Queued.framed_iff (q : Queued T) : q.msg.Framed ↔ q.Fresh := by
  obtain hu | ⟨hs, fs, rest, hu⟩ := (q.start.run_readInv q.run).reading.unread_or_heard
  · have := q.queued
    simp [hu.pushes] at this
  · obtain ⟨fs₁, f, fs₂, -, hbefore, hm⟩ := exists_of_receive (hu.pushes.symm.trans q.queued)
    have hfr : (∀ m ∈ q.before, ¬ m.header.size > 8) ↔ carried [] fs₁ = [] := by
      have hmap := map_header_receive [] fs₁
      rw [carried_eq_nil, hbefore]
      calc (∀ m ∈ receive [] fs₁, ¬ m.header.size > 8)
          ↔ ∀ x ∈ (receive [] fs₁).map (·.header), ¬ x.size > 8 :=
            (forall_mem_map (P := fun x : MessageHeader T => ¬ x.size > 8)).symm
        _ ↔ ∀ f ∈ fs₁, ¬ (frameHeader f).size > 8 := by rw [hmap, forall_mem_map]
    rw [Queued.Fresh, hfr, Message.Framed, hm]
    have hlen := length_frame_body f
    by_cases h8 : (frameHeader f).size > 8
    · simp [h8, hlen]
    · have h8' : ¬ 8 < (frameHeader f).size.toNat := h8
      simp only [h8, if_false, false_or]
      rw [← length_eq_zero_iff]
      omega

/-! ## Relays -/

theorem InSync.peer {ms : List (Message T)} (hs : InSync ms) {c : Connection T} {h : List (Effect T)}
    (hr : Reading c h) (hv : 0 < validations h ∨ 0 < headerReads h)
    (ht : (tookBytes h).drop 8 = stream ms) :
    (pushes h).map (·.header.id) = ms.map (·.header.id) := by
  obtain ⟨hs', fs, rest, hu, -, hsp⟩ := hr.heard hv
  obtain ⟨gs, hgs, hids⟩ := hs ms.length le_rfl
  rw [take_length] at hgs hids
  rw [hu.took, append_assoc, drop_left' hu.length, hgs] at ht
  have hfs : fs = gs := by
    rw [← frames_join gs, ← ht, frames_join_of_none hsp]
  have hmap := congrArg (map (·.id)) (map_header_receive [] gs)
  rw [map_map, map_map] at hmap
  rw [← hids, hu.pushes, hfs]
  exact hmap

/-- The messages relayed keep the next reader in sync if and only if each of them has a body of its
own or was queued before any that has. A peer in sync that has read what a chain wrote of them has
queued messages with exactly their ids. -/
theorem relay_in_sync_iff (qs : List (Queued T)) :
    (InSync (qs.map (·.msg)) ↔ ∀ q ∈ qs, q.Fresh) ∧
      (InSync (qs.map (·.msg)) → ∀ {c₀ c c₀' c' : Connection T} {h₀ h h₀' h'},
        Start c₀ h₀ → (machine T).Run Mealy.free c₀ h₀ c h →
        runs h = qs.map (·.msg) → c.qMessagesOut = [] →
        Start c₀' h₀' → (machine T).Run Mealy.free c₀' h₀' c' h' →
        (0 < validations h' ∨ 0 < headerReads h') → (tookBytes h').drop 8 = chainBytes h →
        (pushes h').map (·.header.id) = (qs.map (·.msg)).map (·.header.id)) := by
  constructor
  · rw [inSync_iff_framed, forall_mem_map]
    exact forall₂_congr fun q _ => q.framed_iff
  · intro hsync c₀ c c₀' c' h₀ h h₀' h' hs hr hruns hq hs' hr' hv ht
    obtain ⟨⟨hpops, -⟩, ⟨p, hb, hp⟩, -⟩ := write_chain hs hr
    rw [hq, append_nil, hruns] at hpops
    rw [hq, take_nil, stream_nil, prefix_nil] at hp
    rw [hb, hp, append_nil, ← hpops] at ht
    exact hsync.peer (hs'.run_readInv hr').reading hv ht

/-- A server connection queues a frame with two bytes of body, then one without. -/
def staleBody : Result UInt32 :=
  ((machine UInt32).exec Mealy.free (accepted 7 [] true 10000).1 (accepted 7 [] true 10000).2
    [.readOk 0 (uint64Bytes (scramble 7)), .readOk 0 [1, 0, 0, 0, 10, 0, 0, 0], .readOk 0 [5, 6],
      .readOk 0 [2, 0, 0, 0, 8, 0, 0, 0]]).get (by decide +kernel)

def ownBody : Queued UInt32 where
  c₀ := (accepted 7 [] true 10000).1
  h₀ := (accepted 7 [] true 10000).2
  c := staleBody.1
  h := staleBody.2
  start := .server 7 [] true 10000
  run := .of_isSome _ _
  before := []
  msg := ⟨⟨1, 10⟩, [5, 6]⟩
  after := [⟨⟨2, 8⟩, [5, 6]⟩]
  queued := by decide +kernel

def relayed : Result UInt32 :=
  ((machine UInt32).exec Mealy.free connected [] [.established, .onConnect true,
    .readOk 0 (uint64Bytes 7), .put 0 8, .writeOk 0, .send ⟨⟨1, 10⟩, [5, 6]⟩, .runTask, .put 0 8,
    .writeOk 0, .put 0 2, .writeOk 0]).get (by decide +kernel)

/-- The peer reads what the client wrote. -/
def relayedPeer : Result UInt32 :=
  ((machine UInt32).exec Mealy.free (accepted 7 [] true 10000).1 (accepted 7 [] true 10000).2
    [.readOk 0 (uint64Bytes (scramble 7)), .readOk 0 [1, 0, 0, 0, 10, 0, 0, 0],
      .readOk 0 [5, 6]]).get (by decide +kernel)

theorem relay_in_sync_iff_ownBody :
    InSync [ownBody.msg] ∧ (pushes relayedPeer.2).map (·.header.id) = [1] := by
  obtain ⟨hiff, hpeer⟩ := relay_in_sync_iff [ownBody]
  have hsync : InSync [ownBody.msg] := hiff.mpr fun q hq => by
    rw [mem_singleton.mp hq]
    exact Or.inl (by decide)
  exact ⟨hsync, hpeer hsync .client
    (.of_isSome _ _ : (machine UInt32).Run Mealy.free connected [] relayed.1 relayed.2)
    (by decide +kernel) (by decide +kernel) (.server 7 [] true 10000)
    (.of_isSome _ _ : (machine UInt32).Run Mealy.free _ _ relayedPeer.1 relayedPeer.2)
    (by decide +kernel) (by decide +kernel)⟩

/-- The message of the second frame: its header announces no body, it has that of the first. -/
def staleMessage : Queued UInt32 where
  c₀ := (accepted 7 [] true 10000).1
  h₀ := (accepted 7 [] true 10000).2
  c := staleBody.1
  h := staleBody.2
  start := .server 7 [] true 10000
  run := .of_isSome _ _
  before := [⟨⟨1, 10⟩, [5, 6]⟩]
  msg := ⟨⟨2, 8⟩, [5, 6]⟩
  after := []
  queued := by decide +kernel

theorem relay_out_of_sync : ¬ ∀ qs : List (Queued UInt32), InSync (qs.map (·.msg)) := by
  intro hall
  have hf := inSync_iff_framed.mp (hall [staleMessage]) staleMessage.msg (by simp)
  exact absurd hf (by decide)

end AsioNetworking
