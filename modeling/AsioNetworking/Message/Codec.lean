import AsioNetworking.Delivery

/-!
# The wire format as a code

A stream of messages whose headers tell the length of their bodies can be cut in one way only. What
the reader makes of the frames is not always what was sent: it keeps the last body when a frame has
none.
-/

namespace AsioNetworking

open List Framing

variable {T : Type} [IdType T]

/-- The message that a frame carries. -/
def Message.ofFrame (f : Frame (frameFormat T)) : Message T := ⟨frameHeader f, f.body⟩

@[simp] theorem Message.ofFrame_frame {m : Message T} (hf : m.Framed) : ofFrame (m.frame hf) = m := by
  rw [ofFrame, frameHeader_frame]
  rfl

theorem map_ofFrame_framesOf (ms : List (Message T)) (hf) :
    (framesOf ms hf).map Message.ofFrame = ms := by
  induction ms with
  | nil => rfl
  | cons m ms ih => rw [framesOf_cons, map_cons, ih, Message.ofFrame_frame]

/-- One stream of messages is a prefix of another one only where its messages are the first ones of the
other. -/
theorem Connection.stream_prefix_iff {ms ms' : List (Message T)} (hf : ∀ m ∈ ms, m.Framed)
    (hf' : ∀ m ∈ ms', m.Framed) : stream ms <+: stream ms' ↔ ms <+: ms' := by
  constructor
  · intro hp
    rw [← join_framesOf ms hf, ← join_framesOf ms' hf', join_prefix_join_iff] at hp
    have hmap := hp.map Message.ofFrame
    rwa [map_ofFrame_framesOf, map_ofFrame_framesOf] at hmap
  · rintro ⟨rest, rfl⟩
    simp [stream]

/-- A message with a body, and one without. -/
def bodyFirst : List (Message UInt32) := [⟨⟨1, 10⟩, [5, 6]⟩, ⟨⟨2, 0⟩, []⟩]

theorem Connection.stream_prefix_iff_bodyFirst :
    stream (bodyFirst.take 1) <+: stream bodyFirst ↔ bodyFirst.take 1 <+: bodyFirst :=
  stream_prefix_iff (by decide) (by decide)

omit [IdType T] in
theorem deliver_eq_iff {ms : List (Message T)} (hd : ∀ m ∈ ms, m.Declared) (body : List UInt8) :
    deliver body ms = ms ↔ (body ≠ [] → ∀ m ∈ ms, m.body ≠ []) ∧
      ms.Pairwise fun m m' => m.body ≠ [] → m'.body ≠ [] := by
  induction ms generalizing body with
  | nil => simp [deliver]
  | cons m ms ih =>
      have hgt := (hd m mem_cons_self).framed.size_gt
      have hkeep : (if m.header.size > 8 then m.body else body) = m.body ↔
          (body ≠ [] → m.body ≠ []) := by
        split
        · rename_i h8
          exact iff_of_true rfl fun _ => hgt.mp h8
        · rename_i h8
          have hnil : m.body = [] := not_not.mp (hgt.not.mp h8)
          simp [hnil]
      have ih := ih (fun m' hm' => hd m' (mem_cons_of_mem _ hm')) m.body
      have hhead : deliver body (m :: ms) = m :: ms ↔
          (body ≠ [] → m.body ≠ []) ∧ deliver m.body ms = ms := by
        rw [deliver, cons.injEq, Message.ext_iff, ← hkeep]
        constructor
        · rintro ⟨⟨-, hb⟩, htail⟩
          exact ⟨hb, hb ▸ htail⟩
        · rintro ⟨hb, htail⟩
          exact ⟨⟨rfl, hb⟩, hb.symm ▸ htail⟩
      rw [hhead, ih, pairwise_cons]
      constructor
      · rintro ⟨hbody, hall, hpair⟩
        refine ⟨fun hne m' hm' => ?_, fun m' hm' hne => hall hne m' hm', hpair⟩
        rcases mem_cons.mp hm' with rfl | hm'
        · exact hbody hne
        · exact hall (hbody hne) m' hm'
      · rintro ⟨hbody, hall, hpair⟩
        exact ⟨fun hne => hbody hne m mem_cons_self, fun hne m' hm' => hall m' hm' hne, hpair⟩

/-- The reader gets back the messages that were sent if and only if no message without a body was sent
after one with a body. -/
theorem receive_stream_iff {ms : List (Message T)} (hd : ∀ m ∈ ms, m.Declared) :
    receive [] (frames (frameFormat T) (Connection.stream ms)) = ms ↔
      ms.Pairwise fun m m' => m.body ≠ [] → m'.body ≠ [] := by
  rw [frames_stream fun m hm => (hd m hm).framed, receive_framesOf, deliver_eq_iff hd]
  simp

theorem receive_stream_iff_bodyFirst :
    receive [] (frames (frameFormat UInt32) (Connection.stream bodyFirst)) = bodyFirst ↔
      bodyFirst.Pairwise fun m m' => m.body ≠ [] → m'.body ≠ [] :=
  receive_stream_iff (by decide)

end AsioNetworking
