/-!
# Blank characters

Words of a rule line are set apart by blanks. Two classes of blank matter: any character with the
Unicode property White_Space ends a word and is cut from the ends of a line, but only four of them
may stand between two words.

## Main definitions

* `Text.isBlank` — the property White_Space.
* `Text.isSeparator` — space, tab, carriage return and line feed.
* `Text.trim` — a text without the blanks at its two ends.

## Main results

* `Text.isBlank_of_isSeparator` — every separator is a blank.
-/

set_option autoImplicit false

namespace ClassAccess.Text

/-- The code points with the Unicode property White_Space, as closed ranges in ascending order. -/
def blankRanges : List (Nat × Nat) :=
  [(0x9, 0xd), (0x20, 0x20), (0x85, 0x85), (0xa0, 0xa0), (0x1680, 0x1680), (0x2000, 0x200a),
    (0x2028, 0x2029), (0x202f, 0x202f), (0x205f, 0x205f), (0x3000, 0x3000)]

/-- Whether `c` has the Unicode property White_Space. -/
def isBlank (c : Char) : Bool :=
  blankRanges.any fun r => r.1 ≤ c.toNat && c.toNat ≤ r.2

/-- Whether `c` may stand between two words. -/
def isSeparator (c : Char) : Bool :=
  c = ' ' || c = '\t' || c = '\r' || c = '\n'

/-- Every separator is a blank. -/
theorem isBlank_of_isSeparator {c : Char} (h : isSeparator c = true) : isBlank c = true := by
  simp only [isSeparator, Bool.or_eq_true, decide_eq_true_eq] at h
  rcases h with ((rfl | rfl) | rfl) | rfl <;> decide

/-- The text without the blanks at its end. -/
def trimEnd (cs : List Char) : List Char :=
  cs.foldr (fun c rest => if rest.isEmpty && isBlank c then [] else c :: rest) []

/-- The text without the blanks at its two ends. -/
def trim (cs : List Char) : List Char :=
  trimEnd (cs.dropWhile isBlank)

/-- Trimming leaves no blank at the end. -/
theorem isBlank_getLast_trimEnd (cs : List Char) :
    ∀ c, (trimEnd cs).getLast? = some c → isBlank c = false := by
  induction cs with
  | nil => intro c h; simp [trimEnd] at h
  | cons d ds ih =>
    intro c h
    have hstep : trimEnd (d :: ds) =
        if (trimEnd ds).isEmpty && isBlank d then [] else d :: trimEnd ds := rfl
    rw [hstep] at h
    cases hds : trimEnd ds with
    | nil =>
      rw [hds] at h
      by_cases hd : isBlank d = true
      · simp [hd] at h
      · simp [hd] at h; subst h; simpa using hd
    | cons e es =>
      rw [hds] at h
      simp only [List.isEmpty_cons, Bool.false_and, Bool.false_eq_true, if_false,
        List.getLast?_cons_cons] at h
      exact ih c (by rw [hds]; exact h)

end ClassAccess.Text
