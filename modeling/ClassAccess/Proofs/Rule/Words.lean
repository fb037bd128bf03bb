import ClassAccess.Proofs.Text.Trim
import ClassAccess.Rule.Line

/-!
# The words of a line

A trimmed line that holds something is either made of words with separators between them, or has a
blank in it that is no separator. In the first case it is made of words in one way only, and these
are the ones that are found; in the second case the search stops at the first such blank.

## Main definitions

* `Line.isStray` — a blank that may not stand between words.
* `Line.IsWord`, `Line.IsGap`, `Line.Splits` — words, what stands between them, and a line made of
  both.
* `Line.Scans` — what the search for words does.

## Main results

* `Line.words_eq_iff` — the search for words.
* `Line.words_eq_iff_splits` — the words of a trimmed line.
* `Line.exists_words_stray_iff` — where a trimmed line cannot be divided into words.
-/

set_option autoImplicit false

namespace ClassAccess.Line

open Text (IsSpan isBlank isSeparator isSpan_iff)

/-! ## Words and gaps -/

/-- A blank that may not stand between words. -/
def isStray (c : Char) : Bool := isBlank c && !isSeparator c

/-- A word: at least one character and no blank. -/
structure IsWord (w : List Char) : Prop where
  /-- It has a character. -/
  ne_nil : w ≠ []
  /-- It has no blank. -/
  noBlank : ∀ c ∈ w, isBlank c = false

/-- What stands between two words: at least one separator and nothing else. -/
structure IsGap (gap : List Char) : Prop where
  /-- It has a character. -/
  ne_nil : gap ≠ []
  /-- It has nothing but separators. -/
  separators : ∀ c ∈ gap, isSeparator c = true

/-- The line `cs` is made of the words `ws`, with a gap between each two of them. -/
inductive Splits : List Char → List (List Char) → Prop
  /-- One word. -/
  | last {w : List Char} : IsWord w → Splits w [w]
  /-- A word, a gap and more words. -/
  | cons {w gap rest : List Char} {ws : List (List Char)} :
    IsWord w → IsGap gap → Splits rest ws → Splits (w ++ (gap ++ rest)) (w :: ws)

/-- A character of a word is no separator. -/
theorem isSeparator_of_not_blank {c : Char} (h : isBlank c = false) : isSeparator c = false := by
  cases hc : isSeparator c with
  | false => rfl
  | true => exact h.symm.trans (Text.isBlank_of_isSeparator hc) |>.symm

/-- The first character of a word. -/
theorem IsWord.exists_cons {w : List Char} (h : IsWord w) :
    ∃ c cs, w = c :: cs ∧ isBlank c = false := by
  obtain ⟨c, cs, rfl⟩ := List.exists_cons_of_ne_nil h.ne_nil
  exact ⟨c, cs, rfl, h.noBlank c List.mem_cons_self⟩

/-- A word is what is taken off the front up to the next blank. -/
theorem IsWord.isSpan {w rest : List Char} (h : IsWord w)
    (hrest : ∀ c, rest.head? = some c → isBlank c = true) :
    IsSpan isWordChar (w ++ rest) w rest :=
  ⟨rfl, fun c hc => by simp [isWordChar, h.noBlank c hc],
    fun c hc => by simp [isWordChar, hrest c hc]⟩

/-- What is taken off the front up to the next blank is a word if it is not empty. -/
theorem isWord_of_isSpan {cs w rest : List Char} (h : IsSpan isWordChar cs w rest) (hw : w ≠ []) :
    IsWord w :=
  ⟨hw, fun c hc => by simpa [isWordChar] using h.inside c hc⟩

namespace Splits

variable {cs : List Char} {ws : List (List Char)}

/-- A line of words starts with a character that is no blank. -/
theorem exists_cons (h : Splits cs ws) : ∃ c rest, cs = c :: rest ∧ isBlank c = false := by
  cases h with
  | last hw => exact hw.exists_cons
  | cons hw _ _ =>
    obtain ⟨c, rest, rfl, hc⟩ := hw.exists_cons
    exact ⟨c, _, rfl, hc⟩

/-- A line of words has no stray blank. -/
theorem not_stray (h : Splits cs ws) : ∀ c ∈ cs, isStray c = false := by
  have hword : ∀ {w : List Char}, IsWord w → ∀ c ∈ w, isStray c = false := by
    intro w hw c hc
    simp [isStray, hw.noBlank c hc]
  induction h with
  | last hw => exact hword hw
  | cons hw hgap _ ih =>
    intro c hc
    rw [List.mem_append, List.mem_append] at hc
    obtain hc | hc | hc := hc
    · exact hword hw c hc
    · simp [isStray, hgap.separators c hc]
    · exact ih c hc

/-- Every word of a line is a word. -/
theorem isWord (h : Splits cs ws) : ∀ w ∈ ws, IsWord w := by
  induction h with
  | last hw => simpa using hw
  | cons hw _ _ ih => exact List.forall_mem_cons.2 ⟨hw, ih⟩

end Splits

/-! ## The search for words -/

/-- What the search for words does: it takes a word off the front, passes over the separators behind
it and goes on, until no word starts. -/
inductive Scans : List Char → List (List Char) → List Char → Prop
  /-- No word starts here. -/
  | stop {rest : List Char} : (∀ c, rest.head? = some c → isBlank c = true) → Scans rest [] rest
  /-- A word, the separators behind it and what is found next. -/
  | word {cs w behind gap tail rest : List Char} {ws : List (List Char)} :
    IsSpan isWordChar cs w behind → w ≠ [] → IsSpan isSeparator behind gap tail →
      Scans tail ws rest → Scans cs (w :: ws) rest

/-- **The search for words** does what it is said to do. -/
theorem words_eq_iff {cs rest : List Char} {ws : List (List Char)} :
    words cs = (ws, rest) ↔ Scans cs ws rest := by
  constructor
  · intro h
    fun_induction words cs generalizing ws with
    | case1 =>
      cases h
      exact .stop (by simp)
    | case2 c cs hword ws' rest' hwords ih =>
      cases h
      have hw := Text.isSpan_takeWhile isWordChar (c :: cs)
      rw [List.takeWhile_cons_of_pos hword] at hw
      exact .word hw (List.cons_ne_nil _ _) (Text.isSpan_takeWhile isSeparator _) (ih hwords)
    | case3 c cs hword =>
      cases h
      refine .stop fun d hd => ?_
      obtain rfl : c = d := by simpa using hd
      simpa [isWordChar] using hword
  · intro h
    induction h with
    | @stop rest hrest =>
      cases rest with
      | nil => rw [words]
      | cons c rest => rw [words, dif_neg (by simp [isWordChar, hrest c rfl])]
    | @word cs w behind gap tail rest ws hw hne hgap _ ih =>
      obtain ⟨htake, hdrop⟩ := isSpan_iff.1 hw
      obtain ⟨c, w, rfl⟩ := List.exists_cons_of_ne_nil hne
      have hword : isWordChar c = true := hw.inside c List.mem_cons_self
      have hafter : afterWord cs = tail := by rw [afterWord, hdrop, (isSpan_iff.1 hgap).2]
      rw [hw.split, List.cons_append] at hafter htake ⊢
      rw [List.takeWhile_cons_of_pos hword, List.cons.injEq] at htake
      rw [words, dif_pos hword, hafter, ih, htake.2]

/-- Words, once found, are a line of words with the rest behind it: if the search goes through to
the end of a line that does not end with a blank, the line is made of the words. -/
theorem Scans.splits {cs rest : List Char} {ws : List (List Char)} (h : Scans cs ws rest)
    (hrest : rest = []) (hne : cs ≠ []) (hlast : ∀ c, cs.getLast? = some c → isBlank c = false) :
    Splits cs ws := by
  induction h with
  | stop => exact absurd hrest hne
  | @word cs w behind gap tail rest ws hw hwne hgap htail ih =>
    have hword := isWord_of_isSpan hw hwne
    by_cases hnil : tail = []
    · -- what follows the last word would be separators at the end of the line
      subst hnil
      have hgapnil : gap = [] := by
        by_contra hgapne
        have hback := hlast (gap.getLast hgapne) (by
          rw [hw.split, hgap.split, List.append_nil, List.getLast?_append,
            List.getLast?_eq_some_getLast hgapne]
          rfl)
        have hsep := hgap.inside _ (List.getLast_mem hgapne)
        rw [Text.isBlank_of_isSeparator hsep] at hback
        cases hback
      obtain rfl : ws = [] := by
        have hwords := words_eq_iff.2 htail
        rw [words] at hwords
        exact (Prod.mk.inj hwords).1.symm
      have hcs : cs = w := by simpa [hgap.split, hgapnil] using hw.split
      rw [hcs]
      exact .last hword
    · have hback : ∀ c, tail.getLast? = some c → isBlank c = false := by
        intro c hc
        apply hlast c
        rw [hw.split, hgap.split, List.getLast?_append, List.getLast?_append, hc]
        rfl
      have hsplits := ih hrest hnil hback
      have hgapne : gap ≠ [] := by
        -- otherwise the word would go on with the next one
        rintro rfl
        obtain ⟨c, more, rfl, hc⟩ := hsplits.exists_cons
        have hstop := hw.stop c (by rw [hgap.split]; rfl)
        simp [isWordChar, hc] at hstop
      rw [hw.split, hgap.split]
      exact .cons hword ⟨hgapne, hgap.inside⟩ hsplits

/-- If the search stops in front of something, this is the first stray blank. -/
theorem Scans.isSpan {cs rest : List Char} {ws : List (List Char)} (h : Scans cs ws rest)
    (hrest : rest ≠ []) (hstart : ∀ c, cs.head? = some c → isSeparator c = false) :
    ∃ before, IsSpan (fun c => !isStray c) cs before rest := by
  induction h with
  | stop hblank =>
    refine ⟨[], rfl, by simp, fun c hc => ?_⟩
    simp [isStray, hblank c hc, hstart c hc]
  | @word cs w behind gap tail rest ws hw hwne hgap _ ih =>
    obtain ⟨before, hbefore⟩ := ih hrest hgap.stop
    refine ⟨w ++ (gap ++ before), ?_, ?_, hbefore.stop⟩
    · rw [hw.split, hgap.split, hbefore.split, List.append_assoc, List.append_assoc]
    · intro c hc
      rw [List.mem_append, List.mem_append] at hc
      obtain hc | hc | hc := hc
      · have hword := hw.inside c hc
        simp only [isWordChar, Bool.not_eq_true'] at hword
        simp [isStray, hword]
      · simp [isStray, hgap.inside c hc]
      · exact hbefore.inside c hc

/-- A line of words is scanned to its end. -/
theorem Splits.scans {cs : List Char} {ws : List (List Char)} (h : Splits cs ws) :
    Scans cs ws [] := by
  induction h with
  | @last w hw =>
    have hspan : IsSpan isWordChar (w ++ []) w [] := hw.isSpan (by simp)
    have hgap : IsSpan isSeparator [] [] [] := ⟨rfl, by simp, by simp⟩
    rw [List.append_nil] at hspan
    exact .word hspan hw.ne_nil hgap (.stop (by simp))
  | @cons w gap rest ws hw hgap hsplits ih =>
    obtain ⟨c, more, rfl, hc⟩ := hsplits.exists_cons
    have hgapspan : IsSpan isSeparator (gap ++ c :: more) gap (c :: more) := by
      refine ⟨rfl, hgap.separators, fun d hd => ?_⟩
      obtain rfl : c = d := by simpa using hd
      exact isSeparator_of_not_blank hc
    refine .word (hw.isSpan fun d hd => ?_) hw.ne_nil hgapspan ih
    obtain ⟨g, gap, rfl⟩ := List.exists_cons_of_ne_nil hgap.ne_nil
    obtain rfl : g = d := by simpa using hd
    exact Text.isBlank_of_isSeparator (hgap.separators g List.mem_cons_self)

/-! ## Trimmed lines -/

section Trimmed

variable {cs : List Char} (hne : cs ≠ []) (hstart : ∀ c, cs.head? = some c → isBlank c = false)
  (hstop : ∀ c, cs.getLast? = some c → isBlank c = false)

include hne hstop in
/-- **The words of a trimmed line** are found exactly if the line is made of them. -/
theorem words_eq_iff_splits {ws : List (List Char)} : words cs = (ws, []) ↔ Splits cs ws :=
  words_eq_iff.trans ⟨fun h => h.splits rfl hne hstop, Splits.scans⟩

include hne hstart hstop in
/-- **The search stops early** exactly in front of the first stray blank. -/
theorem exists_words_stray_iff {blank : Char} {after : List Char} :
    (∃ ws, words cs = (ws, blank :: after)) ↔
      ∃ before, IsSpan (fun c => !isStray c) cs before (blank :: after) := by
  constructor
  · rintro ⟨ws, h⟩
    exact (words_eq_iff.1 h).isSpan (List.cons_ne_nil _ _) fun c hc =>
      isSeparator_of_not_blank (hstart c hc)
  · rintro ⟨before, h⟩
    refine ⟨(words cs).1, Prod.ext rfl ?_⟩
    have hscan : Scans cs (words cs).1 (words cs).2 := words_eq_iff.1 rfl
    by_cases hrest : (words cs).2 = []
    · -- a line that is made of words has no stray blank
      have hsplits := hscan.splits hrest hne hstop
      have hstray := hsplits.not_stray blank (by rw [h.split]; simp)
      have hblank := h.stop blank rfl
      simp [hstray] at hblank
    · obtain ⟨before', h'⟩ := hscan.isSpan hrest fun c hc => isSeparator_of_not_blank (hstart c hc)
      exact (isSpan_iff.1 h').2.symm.trans (isSpan_iff.1 h).2

end Trimmed

end ClassAccess.Line
