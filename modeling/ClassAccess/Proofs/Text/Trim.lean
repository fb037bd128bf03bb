import Mathlib.Data.List.TakeWhile
import ClassAccess.Text.Blank

/-!
# Leading parts and trimmed texts

What is taken off the front of a text as long as its characters are in some class is a part that all
lies in the class and is not followed by one more character of it. A trimmed text is what is left of
a text between the blanks at its ends.

## Main definitions

* `Text.IsSpan` — the longest part from the start on in a class of characters, and what follows it.
* `Text.IsTrimmed` — a text without the blanks at its ends.

## Main results

* `Text.isSpan_iff` — taking and dropping while a character is in the class.
* `Text.trim_eq_iff` — trimming.
-/

set_option autoImplicit false

namespace ClassAccess.Text

/-! ## Leading parts -/

/-- `front` is the longest part of `cs` from the start on whose characters are all in the class `p`,
and `rest` is what follows it. -/
structure IsSpan (p : Char → Bool) (cs front rest : List Char) : Prop where
  /-- The two parts make up the text. -/
  split : cs = front ++ rest
  /-- The first part lies in the class. -/
  inside : ∀ c ∈ front, p c = true
  /-- It could not be longer. -/
  stop : ∀ c, rest.head? = some c → p c = false

/-- What is left after dropping does not start in the class. -/
theorem head?_dropWhile {p : Char → Bool} {cs : List Char} {c : Char}
    (h : (cs.dropWhile p).head? = some c) : p c = false := by
  simpa [h] using List.head?_dropWhile_not p cs

/-- **Every text has one longest leading part in a class**: what is taken from it. -/
theorem isSpan_iff {p : Char → Bool} {cs front rest : List Char} :
    IsSpan p cs front rest ↔ cs.takeWhile p = front ∧ cs.dropWhile p = rest := by
  constructor
  · rintro ⟨rfl, hinside, hstop⟩
    cases rest with
    | nil => simpa using hinside
    | cons c rest =>
      have hc : p c = false := hstop c rfl
      rw [List.takeWhile_append_of_pos hinside, List.dropWhile_append_of_pos hinside]
      simp [hc]
  · rintro ⟨rfl, rfl⟩
    exact ⟨List.takeWhile_append_dropWhile.symm, fun c hc => List.mem_takeWhile_imp hc,
      fun c hc => head?_dropWhile hc⟩

/-- What is taken from a text is its longest leading part in the class. -/
theorem isSpan_takeWhile (p : Char → Bool) (cs : List Char) :
    IsSpan p cs (cs.takeWhile p) (cs.dropWhile p) :=
  isSpan_iff.2 ⟨rfl, rfl⟩

/-- What stands in front of the first `d` of a text. -/
theorem isSpan_of_notMem {d : Char} {front rest : List Char} (h : d ∉ front) :
    IsSpan (· ≠ d) (front ++ d :: rest) front (d :: rest) where
  split := rfl
  inside _ hc := decide_eq_true fun he => h (he ▸ hc)
  stop _ hc := decide_eq_false (not_not_intro (Option.some.inj hc).symm)

/-! ## Trimmed texts -/

/-- `t` is the text `cs` without the blanks at its two ends. -/
structure IsTrimmed (cs t : List Char) : Prop where
  /-- Nothing but blanks is missing, at the two ends. -/
  split : ∃ front back, cs = front ++ t ++ back ∧ (∀ c ∈ front, isBlank c = true) ∧
    ∀ c ∈ back, isBlank c = true
  /-- It does not start with a blank. -/
  start : ∀ c, t.head? = some c → isBlank c = false
  /-- It does not end with a blank. -/
  stop : ∀ c, t.getLast? = some c → isBlank c = false

/-- One step of trimming the end. -/
theorem trimEnd_cons (c : Char) (cs : List Char) :
    trimEnd (c :: cs) = if (trimEnd cs).isEmpty && isBlank c then [] else c :: trimEnd cs := rfl

/-- Nothing but blanks is cut from the end. -/
theorem exists_trimEnd_append (cs : List Char) :
    ∃ back, cs = trimEnd cs ++ back ∧ ∀ c ∈ back, isBlank c = true := by
  induction cs with
  | nil => exact ⟨[], rfl, by simp⟩
  | cons c cs ih =>
    obtain ⟨back, hcs, hback⟩ := ih
    rw [trimEnd_cons]
    split
    · next h =>
      rw [Bool.and_eq_true, List.isEmpty_iff] at h
      rw [h.1, List.nil_append] at hcs
      refine ⟨c :: cs, rfl, ?_⟩
      rw [hcs]
      simpa [h.2] using hback
    · exact ⟨back, by rw [List.cons_append, ← hcs], hback⟩

/-- Blanks at the end are all cut. -/
theorem trimEnd_append_of_blank {t back : List Char} (hback : ∀ c ∈ back, isBlank c = true)
    (ht : ∀ c, t.getLast? = some c → isBlank c = false) : trimEnd (t ++ back) = t := by
  induction t with
  | nil =>
    rw [List.nil_append]
    induction back with
    | nil => rfl
    | cons c back ih =>
      rw [List.forall_mem_cons] at hback
      rw [trimEnd_cons, ih hback.2, if_pos (by simp [hback.1])]
  | cons c t ih =>
    have hrest : trimEnd (t ++ back) = t :=
      ih fun d hd => ht d (by rw [List.getLast?_cons, hd]; rfl)
    rw [List.cons_append, trimEnd_cons, hrest, if_neg]
    rw [Bool.and_eq_true, List.isEmpty_iff]
    rintro ⟨rfl, hc⟩
    exact Bool.false_ne_true ((ht c rfl).symm.trans hc)

/-- A text with a start that is no blank is trimmed at its end only. -/
theorem trim_append_of_blank {front t back : List Char} (hfront : ∀ c ∈ front, isBlank c = true)
    (hback : ∀ c ∈ back, isBlank c = true) (hstart : ∀ c, t.head? = some c → isBlank c = false)
    (hstop : ∀ c, t.getLast? = some c → isBlank c = false) : trim (front ++ t ++ back) = t := by
  rw [trim, List.append_assoc, List.dropWhile_append_of_pos hfront]
  cases t with
  | nil =>
    have hnil : back.dropWhile isBlank = [] := by simpa using hback
    rw [List.nil_append, hnil]
    rfl
  | cons c t =>
    have hc : isBlank c = false := hstart c rfl
    rw [List.cons_append, List.dropWhile_cons_of_neg (by simp [hc]), ← List.cons_append]
    exact trimEnd_append_of_blank hback hstop

/-- **Trimming** takes off the blanks at the two ends and nothing else. -/
theorem trim_eq_iff {cs t : List Char} : trim cs = t ↔ IsTrimmed cs t := by
  constructor
  · rintro rfl
    obtain ⟨back, hcs, hback⟩ := exists_trimEnd_append (cs.dropWhile isBlank)
    refine ⟨⟨cs.takeWhile isBlank, back, ?_, fun c hc => List.mem_takeWhile_imp hc, hback⟩, ?_,
      isBlank_getLast_trimEnd _⟩
    · rw [List.append_assoc, trim, ← hcs, List.takeWhile_append_dropWhile]
    · intro c hc
      have hhead : (cs.dropWhile isBlank).head? = some c := by
        rw [hcs, List.head?_append, show (trimEnd _).head? = some c from hc]
        rfl
      exact head?_dropWhile hhead
  · rintro ⟨⟨front, back, rfl, hfront, hback⟩, hstart, hstop⟩
    exact trim_append_of_blank hfront hback hstart hstop

/-- A text without blanks at its ends is left as it is. -/
theorem trim_eq_self {t : List Char} (hstart : ∀ c, t.head? = some c → isBlank c = false)
    (hstop : ∀ c, t.getLast? = some c → isBlank c = false) : trim t = t :=
  trim_eq_iff.2 ⟨⟨[], [], by simp, by simp, by simp⟩, hstart, hstop⟩

/-- One more blank at the end makes no difference. -/
theorem trim_concat {c : Char} (hc : isBlank c = true) (cs : List Char) :
    trim (cs ++ [c]) = trim cs := by
  obtain ⟨⟨front, back, hcs, hfront, hback⟩, hstart, hstop⟩ := trim_eq_iff.1 (rfl : trim cs = _)
  refine trim_eq_iff.2 ⟨⟨front, back ++ [c], ?_, hfront, ?_⟩, hstart, hstop⟩
  · rw [← List.append_assoc, ← hcs]
  · exact List.forall_mem_append.2 ⟨hback, List.forall_mem_singleton.2 hc⟩

/-- A text in which no blank is found has none. -/
theorem forall_not_blank {cs : List Char} (h : cs.any isBlank = false) :
    ∀ c ∈ cs, isBlank c = false := by
  simpa using h

end ClassAccess.Text
