import Mathlib.Data.List.Basic

/-!
# Frames of a stream

A reader keeps what it was given until a frame is complete. Where a frame that is
complete stays so with more text after it, it makes no difference how the text was cut.
-/

namespace Text

variable {α : Type}

/-- How the first complete frame is split off; `stop` ends it. -/
structure Framing (α : Type) where
  stop : List α
  stop_ne : stop ≠ []
  split : List α → Option (List α × List α)
  text : ∀ {s f r}, split s = some (f, r) → s = f ++ (stop ++ r)
  stable : ∀ {s f r} (t), split s = some (f, r) → split (s ++ t) = some (f, r ++ t)

namespace Framing

variable (F : Framing α)

theorem shorter {s f r : List α} (h : F.split s = some (f, r)) : r.length < s.length := by
  have hpos := List.length_pos_iff.mpr F.stop_ne
  have hlen := congrArg List.length (F.text h)
  simp only [List.length_append] at hlen
  omega

/-- The complete frames, and the text after them. -/
def frames (s : List α) : List (List α) × List α :=
  match _h : F.split s with
  | none => ([], s)
  | some (f, r) => (f :: (frames r).1, (frames r).2)
termination_by s.length
decreasing_by exact F.shorter ‹_›

theorem frames_none {s : List α} (h : F.split s = none) : F.frames s = ([], s) := by
  unfold frames
  split
  · rfl
  · rename_i heq
    rw [h] at heq
    cases heq

theorem frames_some {s f r : List α} (h : F.split s = some (f, r)) :
    F.frames s = (f :: (F.frames r).1, (F.frames r).2) := by
  conv_lhs => unfold frames
  split
  · rename_i heq
    rw [h] at heq
    cases heq
  · rename_i heq
    rw [h] at heq
    cases heq
    rfl

/-- What was left over is read again with the text that follows. -/
theorem frames_append (s t : List α) :
    F.frames (s ++ t) = ((F.frames s).1 ++ (F.frames ((F.frames s).2 ++ t)).1, (F.frames ((F.frames s).2 ++ t)).2) := by
  induction hn : s.length using Nat.strongRecOn generalizing s with
  | ind n ih =>
    cases h : F.split s with
    | none => simp [F.frames_none h]
    | some fr =>
      obtain ⟨f, r⟩ := fr
      have hr := ih r.length (hn ▸ F.shorter h) r rfl
      rw [F.frames_some h, F.frames_some (F.stable t h), hr]
      rfl

theorem frames_text (s : List α) : s = (F.frames s).1.flatMap (· ++ F.stop) ++ (F.frames s).2 := by
  induction hn : s.length using Nat.strongRecOn generalizing s with
  | ind n ih =>
    cases h : F.split s with
    | none => simp [F.frames_none h]
    | some fr =>
      obtain ⟨f, r⟩ := fr
      have hr := ih r.length (hn ▸ F.shorter h) r rfl
      rw [F.frames_some h, List.flatMap_cons, List.append_assoc, ← hr, List.append_assoc]
      exact F.text h

/-- Nothing that is left over is a complete frame. -/
theorem frames_rest (s : List α) : F.frames (F.frames s).2 = ([], (F.frames s).2) := by
  induction hn : s.length using Nat.strongRecOn generalizing s with
  | ind n ih =>
    cases h : F.split s with
    | none => simp [F.frames_none h]
    | some fr =>
      obtain ⟨f, r⟩ := fr
      rw [F.frames_some h]
      exact ih r.length (hn ▸ F.shorter h) r rfl

end Framing

/-! ## Reading frames until one fails -/

section
variable {β ε : Type} (decode : List α → Except ε (Option β))

/-- What the frames give, and whether one failed. -/
def readAll : List (List α) → List (Except ε β) × Bool
  | [] => ([], false)
  | f :: fs =>
    match decode f with
    | .error e => ([.error e], true)
    | .ok b => (b.toList.map .ok ++ (readAll fs).1, (readAll fs).2)

variable {decode}

theorem readAll_error {f : List α} {e : ε} (h : decode f = .error e) (fs : List (List α)) :
    readAll decode (f :: fs) = ([.error e], true) := by
  simp [readAll, h]

theorem readAll_ok {f : List α} {b : Option β} (h : decode f = .ok b) (fs : List (List α)) :
    readAll decode (f :: fs) = (b.toList.map .ok ++ (readAll decode fs).1, (readAll decode fs).2) := by
  simp [readAll, h]

theorem readAll_append_of_ok {fs : List (List α)} (h : (readAll decode fs).2 = false) (gs : List (List α)) :
    readAll decode (fs ++ gs) = ((readAll decode fs).1 ++ (readAll decode gs).1, (readAll decode gs).2) := by
  induction fs with
  | nil => rfl
  | cons f fs ih =>
    cases hf : decode f with
    | error e =>
      rw [readAll_error hf] at h
      cases h
    | ok b =>
      rw [readAll_ok hf] at h
      rw [List.cons_append, readAll_ok hf, readAll_ok hf, ih h, List.append_assoc]

theorem readAll_append_of_error {fs : List (List α)} (h : (readAll decode fs).2 = true) (gs : List (List α)) :
    readAll decode (fs ++ gs) = readAll decode fs := by
  induction fs with
  | nil => cases h
  | cons f fs ih =>
    rw [List.cons_append]
    cases hf : decode f with
    | error e => rw [readAll_error hf, readAll_error hf]
    | ok b =>
      rw [readAll_ok hf] at h
      rw [readAll_ok hf, readAll_ok hf, ih h]

end

end Text
