import ClassAccess.Proofs.Rule.Grammar
import ClassAccess.Proofs.Text.Lines
import ClassAccess.RuleSet.Load

/-!
# Rules and their text

Rule text cannot name everything that a target may be. Where it can, the text of a rule reads as
this rule; and no other rule is read from any line. The same goes for the text of a rule set.

## Main definitions

* `IsClassName` — the class names that rule text can hold.
* `Target.Readable` — the targets that it can name.

## Main results

* `Rule.readable_of_parseLine` — what is read from a line is readable.
* `Rule.parseLine_text` — the text of a readable rule reads as that rule.
* `RuleSet.ofText_text` — and so does that of a set of readable rules.
* `Rule.text_reads_back` — all of this together.

## Design

The text of a rule is the escaped form of a line of words, whatever hashes and backslashes its names
have; a name only has to be a word. What is more to be asked of it is that its class name is in
normal form and that its member says by itself whether it is a field, a method or every method.
-/

set_option autoImplicit false

namespace ClassAccess

open Text (escapeHash)

/-! ## Readable targets -/

/-- A class name that rule text can hold: a word without slashes. -/
structure IsClassName (name : String) : Prop where
  /-- It has a character. -/
  ne_nil : name.toList ≠ []
  /-- It has no blank. -/
  noBlank : ∀ c ∈ name.toList, Text.isBlank c = false
  /-- It has no slash. -/
  noSlash : '/' ∉ name.toList

/-- A target that rule text can name. -/
def Target.Readable : Target → Prop
  | .classLevel className => IsClassName className
  | .field className name =>
    IsClassName className ∧ name.toList ≠ [] ∧ (∀ c ∈ name.toList, Text.isBlank c = false) ∧
      '(' ∉ name.toList
  | .method className signature =>
    IsClassName className ∧ (∀ c ∈ signature.toList, Text.isBlank c = false) ∧
      (∃ name rest, signature.toList = name ++ '(' :: rest ∧ '(' ∉ name ∧ ')' ∈ rest) ∧
      (['*', '('] <+: signature.toList → signature = Target.anyMethod)

/-- A class name that rule text can hold is a word. -/
theorem IsClassName.isWord {name : String} (h : IsClassName name) : Line.IsWord name.toList :=
  ⟨h.ne_nil, h.noBlank⟩

/-- A name without slashes is in normal form. -/
theorem dotted_of_not_mem {name : String} (h : '/' ∉ name.toList) : dotted name = name := by
  have hmap : (name.toList.map fun c => if c = '/' then '.' else c) = name.toList.map id :=
    List.map_congr_left fun c hc => if_neg fun he : c = '/' => h (he ▸ hc)
  rw [dotted, hmap, List.map_id, String.ofList_toList]

/-- A name in normal form has no slash. -/
theorem slash_notMem_dotted (name : String) : '/' ∉ (dotted name).toList := by
  rw [dotted, String.toList_ofList, List.mem_map]
  rintro ⟨c, -, hc⟩
  split at hc
  · cases hc
  · next hne => exact hne hc

/-- A word in normal form is a class name that rule text can hold. -/
theorem isClassName_dotted {w : List Char} (h : Line.IsWord w) :
    IsClassName (dotted (String.ofList w)) := by
  have htext : (dotted (String.ofList w)).toList = w.map fun c => if c = '/' then '.' else c := by
    rw [dotted, String.toList_ofList, String.toList_ofList]
  refine ⟨?_, ?_, slash_notMem_dotted _⟩
  · rw [htext, ne_eq, List.map_eq_nil_iff]
    exact h.ne_nil
  · rw [htext, List.forall_mem_map]
    intro c hc
    split
    · decide
    · exact h.noBlank c hc

/-- **What is read as a target is readable.** -/
theorem Line.ReadsTarget.readable {className : List Char} {member : Option (List Char)} {t : Target}
    (h : Line.ReadsTarget (String.ofList className) member (.ok t)) (hclass : Line.IsWord className)
    (hmember : ∀ m, member = some m → Line.IsWord m) : t.Readable := by
  have hname := isClassName_dotted hclass
  cases h with
  | classLevel => exact hname
  | field hparen =>
    have hword := hmember _ rfl
    rw [Target.Readable, String.toList_ofList]
    exact ⟨hname, hword.ne_nil, hword.noBlank, hparen⟩
  | @method name rest hparen hclose hstar =>
    rw [Target.Readable, String.toList_ofList]
    refine ⟨hname, (hmember _ rfl).noBlank, ⟨name, rest, rfl, hparen, hclose⟩, fun hprefix => ?_⟩
    exact absurd ((Line.star_prefix_iff hparen).1 hprefix) hstar
  | anyMethod _ =>
    have hblank : Target.anyMethod.toList.any Text.isBlank = false := by decide
    exact ⟨hname, Text.forall_not_blank hblank, ⟨['*'], [')'], rfl, by decide, by decide⟩,
      fun _ => rfl⟩

/-- **What is read from a line is readable.** -/
theorem Rule.readable_of_parseLine {number : Nat} {raw : String} {r : Rule}
    (h : parseLine number raw = .ok (some r)) : r.target.Readable := by
  obtain ⟨content, verdict, -, hverdict, houtcome⟩ := parseLine_eq_iff_verdict.1 h
  cases hverdict with
  | @rule _ access className member edits r' hsplits haccess htarget hedits =>
    cases houtcome
    have hwords := hsplits.isWord
    simp only [List.forall_mem_cons] at hwords
    refine htarget.readable hwords.2.1 fun m hm => hwords.2.2 m ?_
    simp [hm]
  | _ => cases houtcome

/-! ## The text of a rule -/

namespace Line

/-- A line of words ends with a character that is no blank. -/
theorem Splits.last_not_blank {cs : List Char} {ws : List (List Char)} (h : Splits cs ws) :
    ∀ c, cs.getLast? = some c → Text.isBlank c = false := by
  induction h with
  | last hw => exact fun c hc => hw.noBlank c (List.mem_of_getLast? hc)
  | @cons w gap rest ws _ _ hrest ih =>
    obtain ⟨d, more, rfl, -⟩ := hrest.exists_cons
    intro c hc
    rw [List.getLast?_append, List.getLast?_append, List.getLast?_cons] at hc
    exact ih c (by rw [List.getLast?_cons]; simpa using hc)

/-- The content of an escaped line of words is the line. -/
theorem content_of_splits {raw : String} {cs : List Char} {ws : List (List Char)}
    (h : raw.toList = escapeHash cs) (hsplits : Splits cs ws) : content raw = cs := by
  rw [content, h, Text.stripComment_eq_scanComment, Text.scanComment_escapeHash]
  refine Text.trim_eq_self (fun c hc => ?_) hsplits.last_not_blank
  obtain ⟨d, rest, rfl, hd⟩ := hsplits.exists_cons
  obtain rfl : d = c := by simpa using hc
  exact hd

end Line

/-- The access word of a rule. -/
def Rule.accessWord (r : Rule) : List Char := r.level.word.toList ++ r.edits.text.toList

namespace Line

/-- Whether a character stands for itself inside a word. -/
def isPlain (c : Char) : Bool := c != '#' && !Text.isBlank c

/-- A character stands for itself if it is neither a hash nor a blank. -/
theorem isPlain_iff {c : Char} : isPlain c = true ↔ c ≠ '#' ∧ Text.isBlank c = false := by
  simp [isPlain]

/-- A space is a gap. -/
theorem isGap_space : IsGap [' '] := ⟨List.cons_ne_nil _ _, List.all_eq_true.1 rfl⟩

end Line

namespace Edits

/-- Edits are written as groups that stand for them. -/
theorem isGroups_text (es : Edits) : ∃ groups, Line.IsGroups es.text.toList groups ∧
    List.Forall₂ Line.IsEdit groups es.toList ∧
      (∀ c, es.text.toList.head? = some c → c.isAlpha = false) ∧
        es.text.toList.all Line.isPlain = true := by
  rw [text]
  obtain h | ⟨a, h⟩ := es.cases_toList <;> rw [h]
  · exact ⟨[], .nil, .nil, nofun, rfl⟩
  · have hspan : Text.IsSpan Char.isAlphanum ['f'] ['f'] [] := ⟨rfl, List.all_eq_true.1 rfl, nofun⟩
    have htext : (String.join ([⟨.final, a⟩].map Edit.text)).toList = [a.sign, 'f'] := by
      cases a <;> rfl
    rw [htext]
    refine ⟨[(a.sign, ['f'])], .cons hspan .nil, .cons ?_ .nil, ?_, by cases a <;> decide⟩
    · cases a with
      | set => exact .set
      | clear => exact .clear
    · rintro c ⟨⟩
      cases a <;> rfl

end Edits

namespace Rule

/-- **The access word of a rule** is a word without hashes and means the level and the edits. -/
theorem readsAccess_accessWord (r : Rule) :
    Line.ReadsAccess r.accessWord (.ok (r.level, r.edits.toList)) ∧ Line.IsWord r.accessWord ∧
      '#' ∉ r.accessWord := by
  obtain ⟨groups, hgroups, hedits, hstop, hplain⟩ := r.edits.isGroups_text
  have hletters : r.level.word.toList.all Char.isAlpha = true := by cases r.level <;> decide
  have hne : r.level.word.toList ≠ [] := by cases r.level <;> decide
  have hword : r.accessWord.all Line.isPlain = true := by
    rw [accessWord, List.all_append, hplain]
    cases r.level <;> decide
  have hchar := fun c hc => Line.isPlain_iff.1 (List.all_eq_true.1 hword c hc)
  exact ⟨.access ⟨rfl, List.all_eq_true.1 hletters, hstop⟩ (String.ofList_toList ..) hgroups hedits,
    ⟨List.append_ne_nil_of_left_ne_nil hne _, fun c hc => (hchar c hc).2⟩,
    fun hhash => (hchar _ hhash).1 rfl⟩

end Rule

/-- The words of a target. -/
def Target.words (t : Target) : List (List Char) :=
  t.className.toList :: (t.member?.map String.toList).toList

/-- **A readable target** is what its words mean. -/
theorem Target.Readable.reads {t : Target} (h : t.Readable) :
    Line.IsWord t.className.toList ∧ (∀ m, t.member? = some m → Line.IsWord m.toList) ∧
      Line.ReadsTarget t.className (t.member?.map String.toList) (.ok t) := by
  cases t with
  | classLevel className =>
    have hreads : Line.ReadsTarget className none _ := .classLevel
    rw [dotted_of_not_mem h.noSlash] at hreads
    exact ⟨h.isWord, nofun, hreads⟩
  | field className name =>
    obtain ⟨hclass, hne, hblank, hparen⟩ := h
    have hreads : Line.ReadsTarget className (some name.toList) _ := .field hparen
    rw [dotted_of_not_mem hclass.noSlash, String.ofList_toList] at hreads
    refine ⟨hclass.isWord, ?_, hreads⟩
    rintro m ⟨⟩
    exact ⟨hne, hblank⟩
  | method className signature =>
    obtain ⟨hclass, hblank, ⟨name, rest, hsplit, hparen, hclose⟩, hstar⟩ := h
    refine ⟨hclass.isWord, ?_, ?_⟩
    · rintro m ⟨⟩
      exact ⟨by simp [hsplit], hblank⟩
    · show Line.ReadsTarget className (some signature.toList) _
      by_cases hname : name = ['*']
      · have hany := hstar (hsplit ▸ (Line.star_prefix_iff hparen).2 hname)
        have hreads : Line.ReadsTarget className (some ('*' :: '(' :: rest)) _ := .anyMethod hclose
        rw [dotted_of_not_mem hclass.noSlash, ← hany] at hreads
        rw [hsplit, hname]
        exact hreads
      · have hreads : Line.ReadsTarget className (some (name ++ '(' :: rest)) _ :=
          .method hparen hclose hname
        rwa [dotted_of_not_mem hclass.noSlash, ← hsplit, String.ofList_toList] at hreads

/-- A name in rule text is its escaped form. -/
@[simp]
theorem Target.toList_nameText (name : String) : (nameText name).toList = escapeHash name.toList :=
  String.toList_ofList ..

/-- The text of a readable target is the escaped form of its words, with spaces between them. -/
theorem Target.Readable.exists_splits {t : Target} (h : t.Readable) :
    ∃ cs, t.text.toList = escapeHash cs ∧ Line.Splits cs t.words ∧
      ∀ c ∈ cs, c = ' ' ∨ Text.isBlank c = false := by
  obtain ⟨hclass, hmember, -⟩ := h.reads
  rw [Target.text, Target.words]
  cases hm : t.member? with
  | none =>
    exact ⟨t.className.toList, toList_nameText _, .last hclass,
      fun c hc => .inr (hclass.noBlank c hc)⟩
  | some m =>
    have hword := hmember m hm
    refine ⟨t.className.toList ++ ([' '] ++ m.toList), ?_,
      .cons hclass Line.isGap_space (.last hword), fun c hc => ?_⟩
    · simp only [String.toList_append, toList_nameText, Text.escapeHash_append, List.append_assoc]
      rfl
    · rw [List.mem_append, List.mem_append] at hc
      obtain hc | hc | hc := hc
      · exact .inr (hclass.noBlank c hc)
      · exact .inl (List.mem_singleton.1 hc)
      · exact .inr (hword.noBlank c hc)

namespace Rule

/-- The text of a readable rule is the escaped form of its words, with spaces between them. -/
theorem exists_splits {r : Rule} (h : r.target.Readable) :
    ∃ cs, r.text.toList = escapeHash cs ∧ Line.Splits cs (r.accessWord :: r.target.words) ∧
      ∀ c ∈ cs, c = ' ' ∨ Text.isBlank c = false := by
  obtain ⟨cs, htext, hsplits, hblank⟩ := h.exists_splits
  obtain ⟨-, hword, hhash⟩ := r.readsAccess_accessWord
  refine ⟨r.accessWord ++ ([' '] ++ cs), ?_, .cons hword Line.isGap_space hsplits,
    fun c hc => ?_⟩
  · rw [text, String.toList_append, String.toList_append, String.toList_append, htext,
      Text.escapeHash_append, Text.escapeHash_of_not_mem hhash, accessWord, List.append_assoc]
    rfl
  · rw [List.mem_append, List.mem_append] at hc
    obtain hc | hc | hc := hc
    · exact .inr (hword.noBlank c hc)
    · exact .inl (List.mem_singleton.1 hc)
    · exact hblank c hc

/-- **The text of a readable rule reads as that rule**, on whatever line it stands. -/
theorem parseLine_text {number : Nat} {r : Rule} (h : r.target.Readable) :
    parseLine number r.text = .ok (some r) := by
  obtain ⟨cs, htext, hsplits, -⟩ := exists_splits h
  obtain ⟨-, -, htarget⟩ := h.reads
  rw [← String.ofList_toList (s := r.target.className)] at htarget
  have hcontent := Line.content_eq_iff.1 (Line.content_of_splits htext hsplits)
  refine parseLine_eq_iff_verdict.2 ⟨cs, .ok (some r), hcontent, ?_, rfl⟩
  refine .rule hsplits r.readsAccess_accessWord.1 htarget ?_
  rw [← Edits.toList_ofList, Edits.ofList_toList]

/-- **A rule reads back from its text** exactly if its target is readable. -/
theorem parseLine_text_iff {number : Nat} {r : Rule} :
    parseLine number r.text = .ok (some r) ↔ r.target.Readable :=
  ⟨readable_of_parseLine, parseLine_text⟩

/-- The text of a readable rule stays on one line. -/
theorem text_on_line {r : Rule} (h : r.target.Readable) :
    '\n' ∉ r.text.toList ∧ r.text.toList.getLast? ≠ some '\r' := by
  obtain ⟨cs, htext, -, hblank⟩ := exists_splits h
  have hchar : ∀ c ∈ r.text.toList, c ≠ '\n' ∧ c ≠ '\r' := by
    intro c hc
    rw [htext] at hc
    obtain rfl | hc := Text.mem_of_mem_escapeHash hc
    · decide
    · obtain rfl | hc := hblank c hc
      · decide
      · exact ⟨by rintro rfl; revert hc; decide, by rintro rfl; revert hc; decide⟩
  exact ⟨fun h => (hchar _ h).1 rfl, fun h => (hchar _ (List.mem_of_getLast? h)).2 rfl⟩

/-- Lines that are the texts of readable rules read as these rules. -/
theorem parseLines_text {rules : List Rule} (h : ∀ r ∈ rules, r.target.Readable) (first : Nat) :
    parseLines first (rules.map text) = .ok rules := by
  induction rules generalizing first with
  | nil => rfl
  | cons r rules ih =>
    rw [List.forall_mem_cons] at h
    rw [List.map_cons, parseLines, parseLine_text h.1, ih h.2]
    rfl

end Rule

/-- **The text of a set of readable rules** reads as that set. -/
theorem RuleSet.ofText_text {s : RuleSet} (h : ∀ r ∈ s.rules.toList, r.target.Readable) :
    ofText s.text = .ok s := by
  have hlines : Text.lines s.text = s.rules.toList.map Rule.text := by
    have hjoin : s.text = String.join ((s.rules.toList.map Rule.text).map (· ++ "\n")) := by
      rw [RuleSet.text, List.map_map]
      rfl
    rw [hjoin]
    exact Text.lines_join (List.forall_mem_map.2 fun r hr => Rule.text_on_line (h r hr))
  rw [ofText, Rule.parseText, hlines, Rule.parseLines_text h]
  exact congrArg Except.ok s.ofRules_toList

/-- **Rules are read back from their text exactly where it can name their targets.** These are the
rules that lines can be read as, and a set of such rules is read back from its text.

**Proof sketch.** What a line is read as is made of words and has a class name in normal form, so
that it is readable. The text of a readable rule is the escaped form of a line of words, and the
grammar says what they mean. -/
theorem Rule.text_reads_back :
    (∀ (number : Nat) (r : Rule), parseLine number r.text = .ok (some r) ↔ r.target.Readable) ∧
      (∀ (number : Nat) (r : Rule),
        (∃ raw, parseLine number raw = .ok (some r)) ↔ r.target.Readable) ∧
      ∀ s : RuleSet, (∀ r ∈ s.rules.toList, r.target.Readable) → RuleSet.ofText s.text = .ok s :=
  ⟨fun _ _ => parseLine_text_iff,
    fun _ r => ⟨fun ⟨_, h⟩ => readable_of_parseLine h, fun h => ⟨r.text, parseLine_text h⟩⟩,
    fun _ => RuleSet.ofText_text⟩

/-- A rule for a field whose name has hashes and backslashes next to one another, in a set of its
own. -/
theorem Rule.text_reads_back_escaped :
    let r : Rule := ⟨.field "a.B#C" "\\#x\\", .everywhere, Edits.ofList [⟨.final, .clear⟩]⟩
    parseLine 1 r.text = .ok (some r) ∧
      RuleSet.ofText (RuleSet.ofRules [r]).text = .ok (RuleSet.ofRules [r]) := by
  intro r
  have hreadable : r.target.Readable :=
    ⟨⟨by decide, Text.forall_not_blank (by decide), by decide⟩, by decide,
      Text.forall_not_blank (by decide), by decide⟩
  refine ⟨(text_reads_back.1 1 r).2 hreadable, text_reads_back.2.2 _ ?_⟩
  rintro r' hr'
  obtain rfl : r' = r := by simpa [RuleSet.ofRules] using hr'
  exact hreadable

end ClassAccess
