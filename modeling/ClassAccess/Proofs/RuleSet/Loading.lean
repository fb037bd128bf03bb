import ClassAccess.Proofs.Rule.LineByLine
import ClassAccess.Proofs.Text.ByteLines
import ClassAccess.RuleSet.Load

/-!
# Ways to load rules

A text, the bytes of that text, a file that holds them and a set of sources that has no other text
all give the same rules or the same error. On bytes that are no text a file fails as a whole, while
a reader comes as far as the first line that is bad or no text. Several sources give what each of
them gives, in their order.

## Main results

* `Rule.parseByteLines_append` — lines of bytes are read as the lines that they are the bytes of.
* `RuleSet.loaders_agree` — a text is loaded in the same way from wherever it comes.
* `RuleSet.sources_layered` — sources are layered one over the other, and so are parts of a text.
-/

set_option autoImplicit false

namespace ClassAccess

open Utf8 (encode)

/-! ## Lines of bytes -/

/-- The bytes of a line are read as that line. -/
theorem Rule.parseByteLines_cons (first : Nat) (raw : String) (rest : List (List UInt8)) :
    parseByteLines first (encode raw.toList :: rest) = (do
      let rule ← (parseLine first raw).mapError LoadError.parse
      let rules ← parseByteLines (first + 1) rest
      return rule.toList ++ rules) := by
  rw [parseByteLines, Utf8.decode?_eq_some_iff.2 rfl]
  cases hline : parseLine first raw <;> simp only [hline] <;> rfl

/-- **Lines of bytes are read as the lines that they are the bytes of**, and what follows is read
on. -/
theorem Rule.parseByteLines_append (first : Nat) (raws : List String) (rest : List (List UInt8)) :
    parseByteLines first ((raws.map fun raw => encode raw.toList) ++ rest) = (do
      let rules ← (parseLines first raws).mapError LoadError.parse
      let others ← parseByteLines (first + raws.length) rest
      return rules ++ others) := by
  induction raws generalizing first with
  | nil => exact (bind_pure _).symm
  | cons raw raws ih =>
    have hnext : first + (raw :: raws).length = first + 1 + raws.length := by
      rw [List.length_cons]
      omega
    rw [List.map_cons, List.cons_append, parseByteLines_cons, ih, hnext, parseLines]
    simp only [mapError_bind, mapError_pure, bind_assoc, pure_bind, List.append_assoc]

/-- Nothing else is told of them. -/
theorem Rule.parseByteLines_map (first : Nat) (raws : List String) :
    parseByteLines first (raws.map fun raw => encode raw.toList) =
      (parseLines first raws).mapError LoadError.parse := by
  have happend := parseByteLines_append first raws []
  rw [List.append_nil] at happend
  rw [happend, parseByteLines]
  cases parseLines first raws with
  | error e => rfl
  | ok rules => exact congrArg Except.ok (List.append_nil rules)

/-- A line that is no text is not read over. -/
theorem Rule.parseByteLines_of_not_text {first : Nat} {bad : List UInt8} {rest : List (List UInt8)}
    (h : ∀ text : String, bad ≠ encode text.toList) :
    parseByteLines first (bad :: rest) = .error .invalidData := by
  rw [parseByteLines, Utf8.decode?_eq_none_iff.2 h]

namespace RuleSet

/-! ## Bytes of a text -/

/-- A file with the bytes of a text is loaded as the text. -/
theorem ofFile_encode (text : String) :
    ofFile (some (encode text.toList)) = (ofText text).mapError .parse := by
  have htext : Utf8.decode? (encode text.toList) = some text := Utf8.decode?_eq_some_iff.2 rfl
  rw [ofFile, htext]

/-- **A reader of the bytes of a text** loads the text. -/
theorem ofReader_encode (text : String) :
    ofReader (encode text.toList) = (ofText text).mapError .parse := by
  rw [ofReader, Text.byteLines_encode, Rule.parseByteLines_map, ofText, Rule.parseText]
  cases Rule.parseLines 1 (Text.lines text) <;> rfl

/-- A text that is the only source is loaded as it is. -/
theorem ofSources_text (text : String) : ofSources [.text text] = ofText text := by
  rw [ofSources, ofText, RuleSource.rulesOfAll, RuleSource.rules]
  cases Rule.parseText text with
  | error e => rfl
  | ok rules => exact congrArg (Except.ok ∘ ofRules) (List.append_nil rules)

/-! ## Bytes of no text -/

/-- A file that holds no text is not loaded. -/
theorem ofFile_of_not_text {bytes : List UInt8} (h : ∀ text : String, bytes ≠ encode text.toList) :
    ofFile (some bytes) = .error .invalidData := by
  rw [ofFile, Utf8.decode?_eq_none_iff.2 h]

/-- **A reader of bytes that are no text** comes as far as the first line that is none, unless a
line before it is bad. -/
theorem ofReader_of_stopsAfter {bytes : List UInt8} {raws : List String}
    (h : Text.StopsAfter bytes raws) :
    ofReader bytes = (do
      let _ ← (Rule.parseLines 1 raws).mapError LoadError.parse
      .error .invalidData) := by
  obtain ⟨bad, rest, hlines, hbad⟩ := h
  rw [ofReader, hlines, Rule.parseByteLines_append, Rule.parseByteLines_of_not_text hbad]
  cases Rule.parseLines 1 raws <;> rfl

/-- **A text is loaded in the same way from wherever it comes.** A file and a reader give the same
rule sets. Where the bytes are a text, they and a set of sources with that text alone give what the
text gives, be it a rule set or an error. Otherwise a file is refused for its bytes, and a reader
tells what is told of the first bad line before the first line that is no text, or refuses the bytes
if there is none. -/
theorem loaders_agree (bytes : List UInt8) :
    (∀ s, ofFile (some bytes) = .ok s ↔ ofReader bytes = .ok s) ∧
      (∀ text : String, bytes = encode text.toList →
        ofSources [.text text] = ofText text ∧ ofReader bytes = (ofText text).mapError .parse ∧
          ofFile (some bytes) = (ofText text).mapError .parse) ∧
      ((∀ text : String, bytes ≠ encode text.toList) →
        ofFile (some bytes) = .error .invalidData ∧ (∃ raws, Text.StopsAfter bytes raws) ∧
          ∀ raws, Text.StopsAfter bytes raws →
            (∀ e, Rule.FirstBad 1 raws e → ofReader bytes = .error (.parse e)) ∧
              ((∀ e, ¬ Rule.FirstBad 1 raws e) → ofReader bytes = .error .invalidData)) := by
  refine ⟨fun s => ?_, ?_, fun h => ⟨ofFile_of_not_text h, Text.exists_stopsAfter h, ?_⟩⟩
  · by_cases htext : ∃ text : String, bytes = encode text.toList
    · obtain ⟨text, rfl⟩ := htext
      rw [ofFile_encode, ofReader_encode]
    · have hbytes : ∀ text : String, bytes ≠ encode text.toList := not_exists.1 htext
      obtain ⟨raws, hraws⟩ := Text.exists_stopsAfter hbytes
      rw [ofFile_of_not_text hbytes, ofReader_of_stopsAfter hraws]
      cases Rule.parseLines 1 raws <;> exact ⟨nofun, nofun⟩
  · rintro text rfl
    exact ⟨ofSources_text text, ofReader_encode text, ofFile_encode text⟩
  · intro raws hraws
    rw [ofReader_of_stopsAfter hraws]
    refine ⟨fun e he => ?_, fun hgood => ?_⟩
    · rw [Rule.parseLines_eq_error_iff.2 he]
      rfl
    · cases hrules : Rule.parseLines 1 raws with
      | error e => exact absurd (Rule.parseLines_eq_error_iff.1 hrules) (hgood e)
      | ok rules => rfl

/-- A text with all kinds of line ends, and bytes that are no text with a bad line before them or
behind them. -/
theorem loaders_agree_sample :
    let text := "public a.B # \rx\r\n\npublic a.B y\r"
    let before := encode "publik a.B\r\n".toList ++ [0xc3, 0x0a, 0xa9]
    let behind := 0xff :: encode "\npublik a.B".toList
    (∃ s, ofText text = .ok s ∧ ofReader (encode text.toList) = .ok s ∧
        ofFile (some (encode text.toList)) = .ok s) ∧
      ofFile (some before) = .error .invalidData ∧
      ofReader before = .error (.parse ⟨1, "publik a.B", .invalidLevel "publik"⟩) ∧
      ofFile (some behind) = .error .invalidData ∧ ofReader behind = .error .invalidData := by
  intro text before behind
  have hparse : Rule.parseText text = .ok [⟨.classLevel "a.B", .everywhere, Edits.none⟩,
      ⟨.field "a.B" "y", .everywhere, Edits.none⟩] := by
    decide +kernel
  have hload := congrArg (ofRules <$> ·) hparse
  obtain ⟨-, htext, -⟩ := loaders_agree (encode text.toList)
  obtain ⟨-, hreader, hfile⟩ := htext text rfl
  obtain ⟨hbefore, -, hfirst⟩ :=
    (loaders_agree before).2.2 (Utf8.decode?_eq_none_iff.1 (by decide +kernel))
  obtain ⟨hbehind, -, hnone⟩ :=
    (loaders_agree behind).2.2 (Utf8.decode?_eq_none_iff.1 (by decide +kernel))
  refine ⟨⟨_, hload, ?_, ?_⟩, hbefore, ?_, hbehind, ?_⟩
  · rw [hreader, ofText, hparse]
    rfl
  · rw [hfile, ofText, hparse]
    rfl
  · refine (hfirst ["publik a.B"] ⟨[0xc3], [[0xa9]], by decide +kernel, ?_⟩).1 _
      ⟨[], _, [], rfl, nofun, by decide +kernel⟩
    exact Utf8.decode?_eq_none_iff.1 (by decide +kernel)
  · refine (hnone [] ⟨[0xff], [encode "publik a.B".toList], by decide +kernel, ?_⟩).2 ?_
    · exact Utf8.decode?_eq_none_iff.1 (by decide +kernel)
    · rintro e ⟨_ | ⟨_, _⟩, _, _, h, -⟩ <;> cases h

end RuleSet

/-! ## Layers -/

namespace RuleSource

/-- The rules of sources are those of each of them, one after the other. -/
theorem rulesOfAll_eq_mapM (sources : List RuleSource) :
    rulesOfAll sources = List.flatten <$> sources.mapM rules := by
  induction sources with
  | nil => rfl
  | cons source sources ih =>
    rw [rulesOfAll, List.mapM_cons, ih]
    cases source.rules with
    | error e => rfl
    | ok _ => cases sources.mapM rules <;> rfl

/-- A source fails only if it is a text, with the error of that text. -/
theorem rules_eq_error_iff {source : RuleSource} {e : ParseError} :
    source.rules = .error e ↔ ∃ text, source = .text text ∧ Rule.parseText text = .error e := by
  cases source with
  | text text =>
    constructor
    · exact fun h => ⟨text, rfl, h⟩
    · rintro ⟨_, h, he⟩
      cases h
      exact he
  | rule r =>
    refine ⟨nofun, ?_⟩
    rintro ⟨_, h, -⟩
    cases h

/-- Sources give rules if the texts among them do. -/
theorem forall_exists_rules_iff {sources : List RuleSource} :
    (∀ source ∈ sources, ∃ rules, source.rules = .ok rules) ↔
      ∀ text, .text text ∈ sources → ∃ rules, Rule.parseText text = .ok rules := by
  refine ⟨fun h text htext => h _ htext, fun h source hsource => ?_⟩
  cases source with
  | text text => exact h text hsource
  | rule r => exact ⟨[r], rfl⟩

end RuleSource

namespace RuleSet

/-- **A set from sources** has the rules of each source, in order. -/
theorem ofSources_eq_ok_iff {sources : List RuleSource} {s : RuleSet} :
    ofSources sources = .ok s ↔ ∃ layers,
      List.Forall₂ (fun source rules => source.rules = .ok rules) sources layers ∧
        ofRules layers.flatten = s := by
  simp only [ofSources, RuleSource.rulesOfAll_eq_mapM, map_eq_ok_iff, mapM_eq_ok_iff]
  constructor
  · rintro ⟨_, ⟨layers, hlayers, rfl⟩, rfl⟩
    exact ⟨layers, hlayers, rfl⟩
  · rintro ⟨layers, hlayers, rfl⟩
    exact ⟨_, ⟨layers, hlayers, rfl⟩, rfl⟩

/-- **Sources fail** with the first text among them that fails. -/
theorem ofSources_eq_error_iff {sources : List RuleSource} {e : ParseError} :
    ofSources sources = .error e ↔ ∃ before text after, sources = before ++ .text text :: after ∧
      (∀ t, .text t ∈ before → ∃ rules, Rule.parseText t = .ok rules) ∧
        Rule.parseText text = .error e := by
  simp only [ofSources, RuleSource.rulesOfAll_eq_mapM, map_eq_error_iff, mapM_eq_error_iff,
    RuleSource.forall_exists_rules_iff, RuleSource.rules_eq_error_iff]
  constructor
  · rintro ⟨before, _, after, hsplit, hbefore, text, rfl, he⟩
    exact ⟨before, text, after, hsplit, hbefore, he⟩
  · rintro ⟨before, text, after, hsplit, hbefore, he⟩
    exact ⟨before, _, after, hsplit, hbefore, text, rfl, he⟩

/-- Sources make a set if every text among them can be read. -/
theorem exists_ofSources_eq_ok_iff {sources : List RuleSource} :
    (∃ s, ofSources sources = .ok s) ↔
      ∀ text, .text text ∈ sources → ∃ rules, Rule.parseText text = .ok rules := by
  rw [← RuleSource.forall_exists_rules_iff, ← exists_mapM_eq_ok_iff]
  simp only [ofSources_eq_ok_iff, mapM_eq_ok_iff]
  exact ⟨fun ⟨_, layers, h, _⟩ => ⟨layers, h⟩, fun ⟨layers, h⟩ => ⟨_, layers, h, rfl⟩⟩

/-- **Sources are layered one over the other.** They make a rule set exactly if each text among them
can be read; the set has the rules of all sources in their order, and the error, if there is one, is
that of the first text that cannot be read. Texts that are put together with a line feed between
them are layers as well, where an error in the second text is told as many lines further down as the
first one has. -/
theorem sources_layered :
    (∀ sources : List RuleSource,
      ((∃ s, ofSources sources = .ok s) ↔
        ∀ text, .text text ∈ sources → ∃ rules, Rule.parseText text = .ok rules) ∧
      (∀ s, ofSources sources = .ok s → ∃ layers,
        List.Forall₂ (fun source rules => source.rules = .ok rules) sources layers ∧
          s.rules.toList = layers.flatten) ∧
      ∀ e, ofSources sources = .error e ↔ ∃ before text after,
        sources = before ++ .text text :: after ∧
          (∀ t, .text t ∈ before → ∃ rules, Rule.parseText t = .ok rules) ∧
            Rule.parseText text = .error e) ∧
      ∀ front back : String,
        (∀ rules, Rule.parseText (front ++ "\n" ++ back) = .ok rules ↔ ∃ upper lower,
          Rule.parseText front = .ok upper ∧ Rule.parseText back = .ok lower ∧
            rules = upper ++ lower) ∧
        (∀ e, Rule.parseText front = .error e →
          Rule.parseText (front ++ "\n" ++ back) = .error e) ∧
        ∀ rules e, Rule.parseText front = .ok rules → Rule.parseText back = .error e →
          Rule.parseText (front ++ "\n" ++ back) =
            .error { e with line := e.line + (Text.lines (front ++ "\n")).length } := by
  refine ⟨fun sources =>
      ⟨exists_ofSources_eq_ok_iff, fun s h => ?_, fun e => ofSources_eq_error_iff⟩,
    fun front back => ⟨fun rules => Rule.parseText_seam_eq_ok_iff, fun e h => ?_,
      fun rules e hfront hback => ?_⟩⟩
  · obtain ⟨layers, hlayers, rfl⟩ := ofSources_eq_ok_iff.1 h
    exact ⟨layers, hlayers, List.toList_toArray⟩
  · rw [Rule.parseText_seam, h]
    rfl
  · rw [Rule.parseText_seam, hfront, hback]
    rfl

/-- A bad text behind a good one and a rule, and the same two texts in one, where the first one has
a comment and a carriage return at its end. -/
theorem sources_layered_sample :
    let front := "public a.B # c\r"
    let back := "\npublik a.B"
    let fault : ParseFault := .invalidLevel "publik"
    ofSources [.text front, .rule ⟨.field "a.B" "x", .everywhere, Edits.none⟩, .text back] =
        .error ⟨2, "publik a.B", fault⟩ ∧
      Rule.parseText (front ++ "\n" ++ back) = .error ⟨3, "publik a.B", fault⟩ := by
  intro front back fault
  have hfront : Rule.parseText front = .ok [⟨.classLevel "a.B", .everywhere, Edits.none⟩] := by
    decide +kernel
  have hback : Rule.parseText back = .error ⟨2, "publik a.B", fault⟩ := by decide +kernel
  have hlines : (Text.lines (front ++ "\n")).length = 1 := by decide +kernel
  obtain ⟨hsources, hseam⟩ := sources_layered
  have herror := (hseam front back).2.2 _ _ hfront hback
  rw [hlines] at herror
  refine ⟨((hsources _).2.2 _).2 ⟨[_, _], back, [], rfl, fun t ht => ?_, hback⟩, herror⟩
  obtain ht | ht := List.mem_cons.1 ht
  · cases ht
    exact ⟨_, hfront⟩
  · cases List.mem_singleton.1 ht

end RuleSet

end ClassAccess
