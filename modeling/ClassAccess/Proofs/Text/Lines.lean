import Mathlib.Data.List.Basic
import ClassAccess.Text.Lines

/-!
# Cutting texts into lines

A text is cut at its line feeds, and a carriage return right before one is taken off the line. So
lines that are written one after the other, each with a line feed behind it, are the lines that are
found, unless a line itself has a line feed in it or a carriage return at its end.

## Main definitions

* `Text.chomp` — a line without a carriage return at its end.

## Main results

* `Text.lineInduction` — a text is empty, or one line, or a line with a line feed and a text behind
  it.
* `Text.splitLines_line` — a line is cut off at its line feed.
* `Text.splitLines_seam` — a text is cut at each of its line feeds apart from the others.
* `Text.lines_join` — the lines of a text that was put together from lines.
-/

set_option autoImplicit false

namespace ClassAccess.Text

variable {α : Type}

/-! ## Texts, line by line -/

/-- **Texts are made of lines.** A text is empty, or it has no line feed, or it is a line with a
line feed and a text behind it. -/
@[elab_as_elim]
theorem lineInduction (lf : α) {motive : List α → Prop} (nil : motive [])
    (last : ∀ line, line ≠ [] → lf ∉ line → motive line)
    (cons : ∀ line rest, lf ∉ line → motive rest → motive (line ++ lf :: rest)) (cs : List α) :
    motive cs := by
  by_cases hlf : lf ∈ cs
  · obtain ⟨line, rest, hcs, hline⟩ := List.eq_append_cons_of_mem hlf
    exact hcs ▸ cons line rest hline (lineInduction lf nil last cons rest)
  · by_cases hcs : cs = []
    · exact hcs ▸ nil
    · exact last cs hcs hlf
termination_by cs.length
decreasing_by
  rw [hcs, List.length_append, List.length_cons]
  omega

variable [DecidableEq α] {cr lf : α}

/-- The line without a carriage return at its end. -/
def chomp (cr : α) (line : List α) : List α :=
  if line.getLast? = some cr then line.dropLast else line

/-- An empty line has none. -/
@[simp]
theorem chomp_nil (cr : α) : chomp cr [] = [] :=
  if_neg (by simp)

/-- At most a carriage return is taken off. -/
theorem eq_chomp_or (cr : α) (line : List α) :
    line = chomp cr line ∨ line = chomp cr line ++ [cr] := by
  rw [chomp]
  split_ifs with h
  · exact .inr (List.dropLast_append_getLast? cr h).symm
  · exact .inl rfl

/-- Only a carriage return is. -/
theorem chomp_of_getLast? {line : List α} (h : line.getLast? ≠ some cr) : chomp cr line = line :=
  if_neg h

/-- A carriage return at the end is taken off. -/
@[simp]
theorem chomp_concat (cr : α) (line : List α) : chomp cr (line ++ [cr]) = line := by
  rw [chomp, if_pos List.getLast?_concat, List.dropLast_concat]

/-! ## The cuts -/

/-- A text without a line feed is one line. -/
theorem splitLines_last {line : List α} (hne : line ≠ []) (hlf : lf ∉ line) :
    splitLines cr lf line = [line] := by
  induction line with
  | nil => exact absurd rfl hne
  | cons c line ih =>
    rw [List.mem_cons, not_or] at hlf
    have hend : ¬(c = cr ∧ line.head? = some lf) := fun h => hlf.2 (List.mem_of_head? h.2)
    rw [splitLines, if_neg (Ne.symm hlf.1), if_neg hend]
    by_cases hline : line = []
    · rw [hline, splitLines]
    · rw [ih hline hlf.2]

/-- **A line is cut off at its line feed**, without a carriage return at its end. -/
theorem splitLines_line {line : List α} (hlf : lf ∉ line) (rest : List α) :
    splitLines cr lf (line ++ lf :: rest) = chomp cr line :: splitLines cr lf rest := by
  induction line with
  | nil => rw [List.nil_append, splitLines, if_pos rfl, chomp_nil]
  | cons c line ih =>
    rw [List.mem_cons, not_or] at hlf
    rw [List.cons_append, splitLines, if_neg (Ne.symm hlf.1)]
    by_cases hend : c = cr ∧ line = []
    · obtain ⟨rfl, rfl⟩ := hend
      rw [if_pos ⟨rfl, rfl⟩, ih hlf.2, chomp_nil, ← List.nil_append [c], chomp_concat]
    · have hhead : ¬(c = cr ∧ (line ++ lf :: rest).head? = some lf) := by
        rintro ⟨hc, hhead⟩
        cases line with
        | nil => exact hend ⟨hc, rfl⟩
        | cons d line => exact hlf.2 (by simpa [eq_comm] using Or.inl hhead)
      have hchomp : chomp cr (c :: line) = c :: chomp cr line := by
        obtain _ | ⟨d, line⟩ := line
        · exact chomp_of_getLast? (by simpa using hend)
        · rw [chomp, chomp, List.getLast?_cons_cons, List.dropLast_cons_cons]
          split_ifs <;> rfl
      rw [if_neg hhead, ih hlf.2, hchomp]

/-- A line that has no carriage return at its end is cut off as it is. -/
theorem splitLines_append {line : List α} (hlf : lf ∉ line) (hcr : line.getLast? ≠ some cr)
    (rest : List α) : splitLines cr lf (line ++ lf :: rest) = line :: splitLines cr lf rest := by
  rw [splitLines_line hlf, chomp_of_getLast? hcr]

/-- **What stands behind a line feed** is cut on its own. -/
theorem splitLines_seam (cr lf : α) (front back : List α) :
    splitLines cr lf (front ++ lf :: back) =
      splitLines cr lf (front ++ [lf]) ++ splitLines cr lf back := by
  induction front using lineInduction lf with
  | nil =>
    rw [List.nil_append, List.nil_append, splitLines, splitLines, if_pos rfl, if_pos rfl]
    rfl
  | last line _ hlf =>
    rw [splitLines_line hlf, splitLines_line hlf]
    rfl
  | cons line rest hlf ih =>
    rw [List.append_assoc, List.append_assoc, List.cons_append, List.cons_append,
      splitLines_line hlf, splitLines_line hlf, ih, List.cons_append]

/-- **The lines of a text** that was put together from lines. -/
theorem lines_join {texts : List String}
    (h : ∀ text ∈ texts, '\n' ∉ text.toList ∧ text.toList.getLast? ≠ some '\r') :
    lines (String.join (texts.map (· ++ "\n"))) = texts := by
  rw [lines, String.toList_join]
  induction texts with
  | nil => rfl
  | cons text texts ih =>
    rw [List.forall_mem_cons] at h
    have hfeed : "\n".toList = ['\n'] := rfl
    rw [List.map_cons, List.flatMap_cons, String.toList_append, hfeed, List.append_assoc,
      List.singleton_append, splitLines_append h.1.1 h.1.2, List.map_cons, ih h.2,
      String.ofList_toList]

end ClassAccess.Text
