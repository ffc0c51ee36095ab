import Mathlib.Data.List.Basic
import Mathlib.Data.List.DropRight

/-!
# The lines of a text

A text that is added to another one begins a line of its own where the other one ends
with a newline, and goes on with its last line elsewhere.
-/

namespace Text

/-- The pieces between newlines as `str::lines` gives them: without a carriage return before
the newline, and without an empty last piece. -/
def stripLines : List (List Char) → List (List Char)
  | [] => []
  | [last] => if last = [] then [] else [last]
  | line :: rest => (if line.getLast? = some '\r' then line.dropLast else line) :: stripLines rest

def lines (s : List Char) : List (List Char) := stripLines (s.splitOn '\n')

/-- What follows the last newline. -/
def lastLine (s : List Char) : List Char := s.rtakeWhile (· != '\n')

theorem stripLines_append (xs : List (List Char)) {ys : List (List Char)} (h : ys ≠ []) :
    stripLines (xs ++ ys) =
      (xs.map fun line => if line.getLast? = some '\r' then line.dropLast else line) ++ stripLines ys := by
  induction xs with
  | nil => rfl
  | cons x xs ih =>
    obtain ⟨z, zs, hz⟩ := List.exists_cons_of_ne_nil (List.append_ne_nil_of_right_ne_nil xs h)
    rw [List.map_cons, List.cons_append, List.cons_append, ← ih, hz]
    rfl

theorem lines_break (s t : List Char) : lines (s ++ '\n' :: t) = lines (s ++ ['\n']) ++ lines t := by
  have hnil : stripLines (([] : List Char).splitOn '\n') = [] := rfl
  unfold lines
  rw [List.splitOn_append_cons_self, List.splitOn_append_cons_self, stripLines_append _ (List.splitOn_ne_nil _ _),
    stripLines_append _ (List.splitOn_ne_nil _ _), hnil, List.append_nil]

theorem lines_line {s : List Char} (h : '\n' ∉ s) (hreturn : s.getLast? ≠ some '\r') : lines (s ++ ['\n']) = [s] := by
  unfold lines
  rw [List.splitOn_append_cons_self, List.splitOn_eq_singleton h, stripLines_append _ (List.splitOn_ne_nil _ _)]
  simp [stripLines, hreturn]

theorem lines_fragment {s : List Char} (h : '\n' ∉ s) : lines s = if s = [] then [] else [s] := by
  unfold lines
  rw [List.splitOn_eq_singleton h]
  rfl

theorem lastLine_newline (s : List Char) : '\n' ∉ lastLine s := by
  intro hmem
  have hne := List.mem_rtakeWhile_imp hmem
  simp at hne

/-- A text is some whole lines and its last line. -/
theorem eq_append_lastLine (s : List Char) : ∃ whole, s = whole ++ lastLine s ∧ (whole = [] ∨ ∃ t, whole = t ++ ['\n']) := by
  refine ⟨s.rdropWhile (· != '\n'), List.rdropWhile_append_rtakeWhile.symm, ?_⟩
  by_cases hnil : s.rdropWhile (· != '\n') = []
  · exact .inl hnil
  · have hlast := List.rdropWhile_last_not (· != '\n') s hnil
    refine .inr ⟨(s.rdropWhile (· != '\n')).dropLast, ?_⟩
    have hchar : (s.rdropWhile (· != '\n')).getLast hnil = '\n' := by simpa using hlast
    have hsplit := List.dropLast_append_getLast hnil
    rw [hchar] at hsplit
    exact hsplit.symm

section
variable {whole s : List Char}

theorem lines_append (h : whole = [] ∨ ∃ t, whole = t ++ ['\n']) (s : List Char) : lines (whole ++ s) = lines whole ++ lines s := by
  rcases h with rfl | ⟨t, rfl⟩
  · rfl
  · rw [List.append_assoc]
    exact lines_break t s

/-- The last line, once a line is added to the text. -/
theorem lines_added (s : List Char) {line : List Char} (h : '\n' ∉ line) (hne : line ≠ [])
    (hreturn : line.getLast? ≠ some '\r') :
    ∃ before, lines s = before ++ (if lastLine s = [] then [] else [lastLine s]) ∧
      lines (s ++ (line ++ ['\n'])) = before ++ [lastLine s ++ line] := by
  obtain ⟨whole, hs, hwhole⟩ := eq_append_lastLine s
  have hlast := lastLine_newline s
  refine ⟨lines whole, ?_, ?_⟩
  · conv_lhs => rw [hs]
    rw [lines_append hwhole, lines_fragment hlast]
  · conv_lhs => rw [hs]
    have hmem : '\n' ∉ lastLine s ++ line := by
      rw [List.mem_append, not_or]
      exact ⟨hlast, h⟩
    have hend : (lastLine s ++ line).getLast? ≠ some '\r' := by
      rwa [List.getLast?_append_of_ne_nil _ hne]
    rw [List.append_assoc, lines_append hwhole, ← List.append_assoc, lines_line hmem hend]

end

end Text
