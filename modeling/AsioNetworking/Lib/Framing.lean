import Mathlib.Data.List.Basic

/-!
# Length-prefixed frames

A frame is a header of fixed length followed by a body whose length the header tells. A list of
symbols splits in exactly one way into complete frames and an incomplete rest.
-/

namespace Framing

variable {α : Type*}

/-- A framing format: the length of a header and the length of the body that a header announces. -/
structure Format (α : Type*) where
  headerLen : Nat
  headerLen_pos : 0 < headerLen
  bodyLen : List α → Nat

/-- A complete frame of the format. -/
@[ext]
structure Frame (F : Format α) where
  header : List α
  body : List α
  header_length : header.length = F.headerLen
  body_length : body.length = F.bodyLen header

variable {F : Format α}

namespace Frame

def bytes (f : Frame F) : List α := f.header ++ f.body

theorem length_bytes (f : Frame F) : f.bytes.length = F.headerLen + F.bodyLen f.header := by
  simp only [bytes, List.length_append, f.header_length, f.body_length]

theorem length_bytes_pos (f : Frame F) : 0 < f.bytes.length := by
  have := F.headerLen_pos
  rw [length_bytes]; omega

end Frame

/-! ## One frame -/

/-- The first frame of the input and what follows it; `none` when no frame is complete. -/
def split (F : Format α) (bs : List α) : Option (Frame F × List α) :=
  if h : F.headerLen ≤ bs.length ∧
      F.bodyLen (bs.take F.headerLen) ≤ (bs.drop F.headerLen).length then
    some (⟨bs.take F.headerLen,
        (bs.drop F.headerLen).take (F.bodyLen (bs.take F.headerLen)),
        List.length_take_of_le h.1, List.length_take_of_le h.2⟩,
      (bs.drop F.headerLen).drop (F.bodyLen (bs.take F.headerLen)))
  else none

theorem split_bytes_append (f : Frame F) (rest : List α) :
    split F (f.bytes ++ rest) = some (f, rest) := by
  have ht : (f.bytes ++ rest).take F.headerLen = f.header := by
    rw [Frame.bytes, List.append_assoc]; exact List.take_left' f.header_length
  have hd : (f.bytes ++ rest).drop F.headerLen = f.body ++ rest := by
    rw [Frame.bytes, List.append_assoc]; exact List.drop_left' f.header_length
  have hc : F.headerLen ≤ (f.bytes ++ rest).length ∧
      F.bodyLen ((f.bytes ++ rest).take F.headerLen) ≤
        ((f.bytes ++ rest).drop F.headerLen).length := by
    rw [ht, hd, ← f.body_length]
    simp only [Frame.bytes, List.length_append, f.header_length]; omega
  rw [split, dif_pos hc]
  simp only [Option.some.injEq, Prod.mk.injEq]
  refine ⟨Frame.ext ht ?_, ?_⟩
  · simp only [ht, hd]; exact List.take_left' f.body_length
  · simp only [ht, hd]; exact List.drop_left' f.body_length

theorem split_eq_some {bs rest : List α} {f : Frame F} :
    split F bs = some (f, rest) ↔ bs = f.bytes ++ rest := by
  constructor
  · intro h
    unfold split at h
    split at h
    · simp only [Option.some.injEq, Prod.mk.injEq] at h
      obtain ⟨rfl, rfl⟩ := h
      simp only [Frame.bytes, List.append_assoc, List.take_append_drop]
    · cases h
  · rintro rfl; exact split_bytes_append f rest

theorem length_lt_of_split {bs rest : List α} {f : Frame F} (h : split F bs = some (f, rest)) :
    rest.length < bs.length := by
  rw [split_eq_some] at h
  have := f.length_bytes_pos
  rw [h, List.length_append]; omega

/-- Fewer symbols than a header, or than a header and the body it announces, are no frame. -/
theorem split_eq_none_of_lt {bs : List α}
    (h : bs.length < F.headerLen ∨
      bs.length < F.headerLen + F.bodyLen (bs.take F.headerLen)) : split F bs = none := by
  rw [split, dif_neg]
  rintro ⟨h₁, h₂⟩
  rw [List.length_drop] at h₂
  omega

/-! ## All frames -/

/-- The complete frames at the start of the input, in order. -/
def frames (F : Format α) (bs : List α) : List (Frame F) :=
  match _h : split F bs with
  | none => []
  | some (f, rest) => f :: frames F rest
termination_by bs.length
decreasing_by exact length_lt_of_split _h

theorem frames_of_none {bs : List α} (h : split F bs = none) : frames F bs = [] := by
  rw [frames]; split
  · rfl
  · rename_i h'; rw [h] at h'; cases h'

theorem frames_bytes_append (f : Frame F) (rest : List α) :
    frames F (f.bytes ++ rest) = f :: frames F rest := by
  rw [frames]; split
  · rename_i h'; rw [split_bytes_append] at h'; cases h'
  · rename_i h'; rw [split_bytes_append] at h'; cases h'; rfl

def join (fs : List (Frame F)) : List α := fs.flatMap Frame.bytes

@[simp] theorem join_nil : join ([] : List (Frame F)) = [] := rfl

@[simp] theorem join_cons (f : Frame F) (fs : List (Frame F)) :
    join (f :: fs) = f.bytes ++ join fs := rfl

@[simp] theorem join_append (fs gs : List (Frame F)) : join (fs ++ gs) = join fs ++ join gs :=
  List.flatMap_append

theorem frames_join_append (fs : List (Frame F)) (rest : List α) :
    frames F (join fs ++ rest) = fs ++ frames F rest := by
  induction fs with
  | nil => rfl
  | cons f fs ih => rw [join_cons, List.append_assoc, frames_bytes_append, ih, List.cons_append]

/-- Complete frames followed by an incomplete rest are read as exactly these frames. -/
theorem frames_join_of_none {fs : List (Frame F)} {rest : List α} (h : split F rest = none) :
    frames F (join fs ++ rest) = fs := by
  rw [frames_join_append, frames_of_none h, List.append_nil]

/-- An incomplete rest after complete frames is no part of a list of complete frames. -/
theorem join_append_eq_join {fs gs : List (Frame F)} {rest : List α} (hs : split F rest = none)
    (hj : join fs ++ rest = join gs) : fs = gs ∧ rest = [] := by
  have hnil : split F ([] : List α) = none := split_eq_none_of_lt (.inl F.headerLen_pos)
  have hfr := congrArg (frames F) hj
  rw [frames_join_of_none hs, ← List.append_nil (join gs), frames_join_of_none hnil] at hfr
  subst hfr
  exact ⟨rfl, List.append_right_eq_self.mp hj⟩

/-- Frames are a prefix code: no frame ends inside another one. -/
theorem join_prefix_join_iff {fs gs : List (Frame F)} : join fs <+: join gs ↔ fs <+: gs := by
  constructor
  · rintro ⟨rest, hj⟩
    have hnil : split F ([] : List α) = none := split_eq_none_of_lt (.inl F.headerLen_pos)
    have hfr := congrArg (frames F) hj
    rw [frames_join_append, ← List.append_nil (join gs), frames_join_of_none hnil] at hfr
    exact ⟨frames F rest, hfr⟩
  · rintro ⟨rest, rfl⟩
    rw [join_append]
    exact List.prefix_append _ _

end Framing
