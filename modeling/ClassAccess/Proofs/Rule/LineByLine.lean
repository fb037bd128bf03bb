import ClassAccess.Proofs.Rule.Grammar
import ClassAccess.Proofs.Text.Lines
import ClassAccess.Proofs.Text.Trim

/-!
# Rule text, line by line

What becomes of a line of rule text does not depend on the lines around it; its number is told in an
error and matters for nothing else. So a text is read as its parts are, with the errors of the
second part further down, as long as the two are set apart by a line feed.

## Main definitions

* `Rule.GoodLine` — a line with nothing wrong about it.
* `Rule.FirstBad` — what is told of the first bad line.
* `ParseError.later` — an error further down.

## Main results

* `Rule.parseLines_eq_error_iff` — the error of a text is that of its first bad line.
* `Rule.parseLines_append` — lines are read one after the other.
* `Rule.parseText_seam` — so are texts with a line feed between them.

## Design

A text may lack a line feed at its end, or have a carriage return there that belongs to the end of a
line only once a line feed is put behind it. Neither makes a difference: an empty line holds no
rule, and a carriage return at the end of a line is a blank.
-/

set_option autoImplicit false

namespace ClassAccess

/-- The error as it is told where the line stands `lines` lines further down. -/
def ParseError.later (lines : Nat) (e : ParseError) : ParseError :=
  { e with line := e.line + lines }

namespace Rule

/-! ## Single lines -/

/-- A line is read as its content is. -/
theorem parseLine_congr {number : Nat} {raw raw' : String}
    (h : Line.content raw = Line.content raw') : parseLine number raw = parseLine number raw' := by
  by_cases hraw : Line.content raw = []
  · rw [parseLine_of_empty hraw, parseLine_of_empty (h ▸ hraw)]
  · rw [parseLine_of_content hraw, parseLine_of_content (h ▸ hraw), h]

/-- A carriage return at the end of a line makes no difference to it. -/
theorem parseLine_chomp (number : Nat) (line : List Char) :
    parseLine number (String.ofList (Text.chomp '\r' line)) =
      parseLine number (String.ofList line) := by
  obtain h | h := Text.eq_chomp_or '\r' line
  · rw [← h]
  · refine parseLine_congr ?_
    -- on the left, the line stands inside `chomp` and is kept as it is
    conv_rhs => rw [h]
    simp only [Line.content, String.toList_ofList, Text.stripComment_eq_scanComment]
    obtain hscan | hscan := Text.scanComment_concat (c := '\r') (by decide) (Text.chomp '\r' line)
    · rw [hscan]
    · rw [hscan, Text.trim_concat (by decide)]

/-- Further down, a line is read as it is read here. -/
theorem parseLine_add (number lines : Nat) (raw : String) :
    parseLine (number + lines) raw = (parseLine number raw).mapError (·.later lines) := by
  by_cases hraw : Line.content raw = []
  · rw [parseLine_of_empty hraw, parseLine_of_empty hraw]
    rfl
  · rw [parseLine_of_content hraw, parseLine_of_content hraw]
    cases Line.readRule (Line.content raw) <;> rfl

/-- There is nothing wrong with a line: it holds a rule, or none. -/
def GoodLine (raw : String) : Prop := ∃ rule, parseLine 1 raw = .ok rule

/-- Whether a line is good does not depend on its number. -/
theorem goodLine_iff (number : Nat) (raw : String) :
    GoodLine raw ↔ ∃ rule, parseLine number raw = .ok rule := by
  refine exists_congr fun rule => ?_
  have hzero : ∀ n, parseLine n raw = .ok rule ↔ parseLine 0 raw = .ok rule := by
    intro n
    rw [← Nat.zero_add n, parseLine_add, mapError_eq_ok_iff]
  rw [hzero, hzero number]

/-! ## Lines in a row -/

/-- Further down, lines are read as they are read here. -/
theorem parseLines_add (first lines : Nat) (raws : List String) :
    parseLines (first + lines) raws = (parseLines first raws).mapError (·.later lines) := by
  induction raws generalizing first with
  | nil => rfl
  | cons raw raws ih =>
    have hnext : first + lines + 1 = first + 1 + lines := by omega
    simp only [parseLines, parseLine_add, hnext, ih, mapError_bind, mapError_pure]

/-- **Lines are read one after the other.** -/
theorem parseLines_append (first : Nat) (front back : List String) :
    parseLines first (front ++ back) = (do
      let rules ← parseLines first front
      let others ← parseLines (first + front.length) back
      return rules ++ others) := by
  induction front generalizing first with
  | nil => exact (bind_pure _).symm
  | cons raw front ih =>
    have hnext : first + (raw :: front).length = first + 1 + front.length := by
      rw [List.length_cons]
      omega
    rw [List.cons_append, parseLines, parseLines, ih, hnext]
    simp only [bind_assoc, pure_bind, List.append_assoc]

/-- An error is that of the first bad one among lines numbered from `first` on. -/
def FirstBad (first : Nat) (raws : List String) (e : ParseError) : Prop :=
  ∃ before raw after, raws = before ++ raw :: after ∧ (∀ line ∈ before, GoodLine line) ∧
    parseLine (first + before.length) raw = .error e

/-- Lines can be read if all of them are good. -/
theorem exists_parseLines_eq_ok_iff (first : Nat) {raws : List String} :
    (∃ rules, parseLines first raws = .ok rules) ↔ ∀ raw ∈ raws, GoodLine raw := by
  induction raws generalizing first with
  | nil => exact ⟨fun _ => nofun, fun _ => ⟨[], rfl⟩⟩
  | cons raw raws ih =>
    rw [List.forall_mem_cons, goodLine_iff first, ← ih (first + 1), parseLines]
    constructor
    · rintro ⟨rules, h⟩
      obtain ⟨rule, hrule, h⟩ := bind_eq_ok_iff.1 h
      obtain ⟨rest, hrest, -⟩ := bind_eq_ok_iff.1 h
      exact ⟨⟨rule, hrule⟩, rest, hrest⟩
    · rintro ⟨⟨rule, hrule⟩, rest, hrest⟩
      exact ⟨rule.toList ++ rest, by rw [hrule, hrest]; rfl⟩

/-- **The error of lines in a row** is that of the first bad one. -/
theorem parseLines_eq_error_iff {first : Nat} {raws : List String} {e : ParseError} :
    parseLines first raws = .error e ↔ FirstBad first raws e := by
  constructor
  · intro h
    induction raws generalizing first with
    | nil => cases h
    | cons raw raws ih =>
      obtain h | ⟨rule, hrule, h⟩ := bind_eq_error_iff.1 h
      · exact ⟨[], raw, raws, rfl, nofun, h⟩
      · obtain h | ⟨rules, -, h⟩ := bind_eq_error_iff.1 h
        · obtain ⟨before, bad, after, rfl, hbefore, hbad⟩ := ih h
          have hraw : GoodLine raw := (goodLine_iff first raw).2 ⟨rule, hrule⟩
          refine ⟨raw :: before, bad, after, rfl, List.forall_mem_cons.2 ⟨hraw, hbefore⟩, ?_⟩
          rw [← hbad, List.length_cons]
          congr 1
          omega
        · cases h
  · rintro ⟨before, raw, after, rfl, hbefore, hbad⟩
    obtain ⟨rules, hrules⟩ := (exists_parseLines_eq_ok_iff first).2 hbefore
    rw [parseLines_append, hrules, parseLines, hbad]
    rfl

/-! ## Texts -/

/-- A line feed behind a text makes no difference to it. -/
theorem parseText_lineFeed (text : String) : parseText (text ++ "\n") = parseText text := by
  have hfeed : "\n".toList = ['\n'] := rfl
  rw [parseText, parseText, Text.lines, Text.lines, String.toList_append, hfeed]
  generalize 1 = first
  induction text.toList using Text.lineInduction '\n' generalizing first with
  | nil => rfl
  | last line hne hlf =>
    rw [Text.splitLines_line hlf, Text.splitLines_last hne hlf, Text.splitLines]
    simp only [List.map_cons, List.map_nil, parseLines, parseLine_chomp]
  | cons line rest hlf ih =>
    rw [List.append_assoc, List.cons_append, Text.splitLines_line hlf, Text.splitLines_line hlf]
    simp only [List.map_cons, parseLines, ih]

/-- **Texts are read one after the other** if there is a line feed between them. -/
theorem parseText_seam (front back : String) :
    parseText (front ++ "\n" ++ back) = (do
      let rules ← parseText front
      let others ← (parseText back).mapError (·.later (Text.lines (front ++ "\n")).length)
      return rules ++ others) := by
  have hfeed : "\n".toList = ['\n'] := rfl
  have hlines : Text.lines (front ++ "\n" ++ back) =
      Text.lines (front ++ "\n") ++ Text.lines back := by
    simp only [Text.lines, String.toList_append, hfeed]
    rw [List.append_assoc, List.singleton_append, Text.splitLines_seam, List.map_append]
  rw [parseText, hlines, parseLines_append, parseLines_add, ← parseText, ← parseText,
    parseText_lineFeed]

/-- They can be read if both of them can. -/
theorem parseText_seam_eq_ok_iff {front back : String} {rules : List Rule} :
    parseText (front ++ "\n" ++ back) = .ok rules ↔ ∃ upper lower,
      parseText front = .ok upper ∧ parseText back = .ok lower ∧ rules = upper ++ lower := by
  rw [parseText_seam]
  simp only [bind_eq_ok_iff, mapError_eq_ok_iff]
  constructor
  · rintro ⟨upper, hupper, lower, hlower, h⟩
    exact ⟨upper, lower, hupper, hlower, (Except.ok.inj h).symm⟩
  · rintro ⟨upper, lower, hupper, hlower, rfl⟩
    exact ⟨upper, hupper, lower, hlower, rfl⟩

end Rule

end ClassAccess
