import ClassAccess.Text.Comment

/-!
# Cutting comments and undoing escapes

What is left of a line without its comment, told without the scan: the line is cut at its first hash
that has no backslash right before it, and in what stands before the cut every backslash and hash
become a hash. Escaping the hashes of a text is undone by that, whatever backslashes the text has.

## Main definitions

* `Text.unescapeHash` — a hash for every backslash and hash.
* `Text.IsBeforeComment` — what stands before the first bare hash of a line.

## Main results

* `Text.stripComment_eq_scanComment` — the shortcuts for lines without an escape change nothing.
* `Text.scanComment_escapeHash` — the escape is undone.
* `Text.stripComment_eq_iff` — cutting and undoing, one after the other.
* `Text.stripComment_undoes_escapeHash` — what becomes of an escaped text, alone and with a comment.

## Design

A text in which every hash has a backslash before it is the escaped form of one text only, so that
what stands before a comment is always written as `escapeHash t`.
-/

set_option autoImplicit false

namespace ClassAccess.Text

/-! ## Shortcuts -/

/-- Nothing is kept of a line that starts with a bare hash. -/
theorem scanComment_hash (comment : List Char) : scanComment ('#' :: comment) = [] := by
  rw [scanComment, if_pos rfl]
  exact nofun

/-- A line without a hash is all kept. -/
theorem scanComment_of_not_mem {line : List Char} (h : '#' ∉ line) : scanComment line = line := by
  fun_induction scanComment line with
  | case1 cs ih => simp at h
  | case2 cs => simp at h
  | case3 c cs _ hc ih =>
    rw [ih fun hmem => h (List.mem_cons_of_mem _ hmem)]
  | case4 => rfl

/-- Where no hash is escaped, the line is kept up to its first hash. -/
theorem scanComment_of_not_escaped {line : List Char} (h : hasEscapedHash line = false) :
    scanComment line = line.takeWhile (· ≠ '#') := by
  fun_induction scanComment line with
  | case1 cs ih => simp [hasEscapedHash] at h
  | case2 cs => simp
  | case3 c cs hpair hc ih =>
    have hcs : hasEscapedHash cs = false := by
      rw [hasEscapedHash] at h
      · exact h
      · exact hpair
    rw [ih hcs, List.takeWhile_cons_of_pos (by simpa using hc)]
  | case4 => rfl

/-- **The shortcuts change nothing**: the line without its comment is what the scan gives. -/
theorem stripComment_eq_scanComment (line : List Char) : stripComment line = scanComment line := by
  unfold stripComment
  split
  · next h => exact (scanComment_of_not_mem (by simpa using h)).symm
  · split
    · next h => exact (scanComment_of_not_escaped (by simpa using h)).symm
    · rfl

/-! ## Escaping -/

/-- Texts are escaped piece by piece. -/
theorem escapeHash_append (s t : List Char) :
    escapeHash (s ++ t) = escapeHash s ++ escapeHash t := by
  induction s with
  | nil => rfl
  | cons c s ih => by_cases hc : c = '#' <;> simp [escapeHash, hc, ih]

/-- A text without a hash is its own escaped form. -/
theorem escapeHash_of_not_mem {t : List Char} (h : '#' ∉ t) : escapeHash t = t := by
  induction t with
  | nil => rfl
  | cons c t ih =>
    rw [List.mem_cons, not_or] at h
    simp [escapeHash, Ne.symm h.1, ih h.2]

/-- Escaping adds nothing but backslashes. -/
theorem mem_of_mem_escapeHash {t : List Char} {c : Char} (h : c ∈ escapeHash t) :
    c = '\\' ∨ c ∈ t := by
  induction t with
  | nil => simp [escapeHash] at h
  | cons d t ih => by_cases hd : d = '#' <;> simp [escapeHash, hd] at h <;> grind

/-- No escaped form starts with a hash. -/
theorem head?_escapeHash_ne (t : List Char) : (escapeHash t).head? ≠ some '#' := by
  cases t with
  | nil => simp [escapeHash]
  | cons c t => by_cases hc : c = '#' <;> simp [escapeHash, hc]

/-- Escaping leaves the last character. -/
theorem getLast?_escapeHash (t : List Char) : (escapeHash t).getLast? = t.getLast? := by
  induction t with
  | nil => rfl
  | cons c t ih => by_cases hc : c = '#' <;> simp [escapeHash, hc, List.getLast?_cons, ih]

/-! ## Undoing escapes -/

/-- The scan keeps a character that is no hash and starts no escape. -/
theorem scanComment_cons {c : Char} {cs : List Char} (hc : c ≠ '#')
    (hpair : c = '\\' → cs.head? ≠ some '#') : scanComment (c :: cs) = c :: scanComment cs := by
  rw [scanComment, if_neg hc]
  rintro rest rfl rfl
  exact hpair rfl rfl

/-- **The scan undoes the escape and goes on behind it**, unless a backslash at the end of the text
and a hash behind it read as one more escape. -/
theorem scanComment_escapeHash_append {t rest : List Char}
    (h : t.getLast? = some '\\' → rest.head? ≠ some '#') :
    scanComment (escapeHash t ++ rest) = t ++ scanComment rest := by
  induction t with
  | nil => rfl
  | cons c t ih =>
    have ht : t.getLast? = some '\\' → rest.head? ≠ some '#' := by
      intro hlast
      exact h (by rw [List.getLast?_cons, hlast]; rfl)
    by_cases hc : c = '#'
    · simp [escapeHash, hc, scanComment, ih ht]
    · have hnext : c = '\\' → (escapeHash t ++ rest).head? ≠ some '#' := by
        rintro rfl
        cases t with
        | nil => exact h rfl
        | cons d t =>
          have hhead := head?_escapeHash_ne (d :: t)
          by_cases hd : d = '#' <;> simp_all [escapeHash]
      rw [escapeHash, if_neg hc, List.cons_append, scanComment_cons hc hnext, ih ht,
        List.cons_append]

/-- One more character at the end of a line is part of its comment, or it is kept. -/
theorem scanComment_concat {c : Char} (hc : c ≠ '#') (line : List Char) :
    scanComment (line ++ [c]) = scanComment line ∨
      scanComment (line ++ [c]) = scanComment line ++ [c] := by
  fun_induction scanComment line with
  | case1 line ih => exact ih.imp (congrArg ('#' :: ·)) (congrArg ('#' :: ·))
  | case2 line => exact .inl (scanComment_hash _)
  | case3 d line hpair hd ih =>
    have hnext : d = '\\' → (line ++ [c]).head? ≠ some '#' := by
      intro hslash
      cases line with
      | nil => simpa using hc
      | cons e line => simpa using fun he : e = '#' => hpair line hslash (he ▸ rfl)
    rw [List.cons_append, scanComment_cons hd hnext]
    exact ih.imp (congrArg (d :: ·)) (congrArg (d :: ·))
  | case4 => exact .inr (scanComment_cons hc fun _ => nofun)

/-- **The escape is undone.** -/
theorem scanComment_escapeHash (t : List Char) : scanComment (escapeHash t) = t := by
  have h := @scanComment_escapeHash_append t [] (by simp)
  simpa [scanComment] using h

/-- The text with a hash for every backslash and hash. -/
def unescapeHash : List Char → List Char
  | '\\' :: '#' :: cs => '#' :: unescapeHash cs
  | c :: cs => c :: unescapeHash cs
  | [] => []

/-- Escaped hashes are brought back. -/
theorem unescapeHash_escapeHash (t : List Char) : unescapeHash (escapeHash t) = t := by
  induction t with
  | nil => rfl
  | cons c t ih =>
    by_cases hc : c = '#'
    · simp [escapeHash, hc, unescapeHash, ih]
    · rw [escapeHash, if_neg hc, unescapeHash, ih]
      rintro rest rfl hrest
      exact head?_escapeHash_ne t (by rw [hrest]; rfl)

/-! ## Before the comment -/

/-- Every hash has a backslash right before it. -/
def AllEscaped (cs : List Char) : Prop :=
  ∀ before after, cs = before ++ '#' :: after → before.getLast? = some '\\'

/-- `kept` is what stands in `line` before its first bare hash, one that has no backslash right
before it. -/
structure IsBeforeComment (line kept : List Char) : Prop where
  /-- It is the whole line, or a bare hash follows it. -/
  cut : line = kept ∨ ∃ comment, line = kept ++ '#' :: comment ∧ kept.getLast? ≠ some '\\'
  /-- There is no bare hash in it. -/
  escaped : AllEscaped kept

/-- In an escaped form every hash has its backslash. -/
theorem allEscaped_escapeHash (t : List Char) : AllEscaped (escapeHash t) := by
  induction t with
  | nil => intro before after h; simp [escapeHash] at h
  | cons c t ih =>
    intro before after h
    by_cases hc : c = '#'
    · subst hc
      rw [escapeHash, if_pos rfl] at h
      match before, h with
      | [], h => simp at h
      | [_], h => simp at h; simp [← h.1]
      | _ :: _ :: before, h =>
        simp only [List.cons_append, List.cons.injEq] at h
        simp [List.getLast?_cons, ih before after h.2.2]
    · rw [escapeHash, if_neg hc] at h
      cases before with
      | nil => simp [hc] at h
      | cons _ before =>
        simp only [List.cons_append, List.cons.injEq] at h
        simp [List.getLast?_cons, ih before after h.2]

/-- **Where every hash has its backslash, the text is an escaped form.** -/
theorem AllEscaped.eq_escapeHash {cs : List Char} (h : AllEscaped cs) :
    cs = escapeHash (unescapeHash cs) := by
  fun_induction unescapeHash cs with
  | case1 cs ih =>
    have hcs : AllEscaped cs := by
      intro before after hsplit
      have hlast := h ('\\' :: '#' :: before) after (by rw [hsplit]; rfl)
      cases before <;> simp_all [List.getLast?_cons]
    rw [escapeHash, if_pos rfl, ← ih hcs]
  | case2 c cs hpair ih =>
    have hc : c ≠ '#' := by
      rintro rfl
      simpa using h [] cs rfl
    have hcs : AllEscaped cs := by
      intro before after hsplit
      have hlast := h (c :: before) after (by rw [hsplit]; rfl)
      cases before with
      | nil => exact absurd hsplit (hpair after (by simpa using hlast))
      | cons d before => simpa [List.getLast?_cons] using hlast
    rw [escapeHash, if_neg hc, ← ih hcs]
  | case3 => rfl

/-- The scan stops at a bare hash or at the end of the line. -/
theorem cut_scanComment (line : List Char) :
    line = escapeHash (scanComment line) ∨ ∃ comment,
      line = escapeHash (scanComment line) ++ '#' :: comment ∧
        (scanComment line).getLast? ≠ some '\\' := by
  fun_induction scanComment line with
  | case1 cs ih =>
    obtain ih | ⟨comment, ih, hlast⟩ := ih
    · left
      rw [escapeHash, if_pos rfl, ← ih]
    · right
      refine ⟨comment, by rw [escapeHash, if_pos rfl, List.cons_append, List.cons_append, ← ih], ?_⟩
      cases hscan : scanComment cs <;> simp_all [List.getLast?_cons]
  | case2 cs => exact .inr ⟨cs, rfl, by simp⟩
  | case3 c cs hpair hc ih =>
    obtain ih | ⟨comment, ih, hlast⟩ := ih
    · left
      rw [escapeHash, if_neg hc, ← ih]
    · right
      refine ⟨comment, by rw [escapeHash, if_neg hc, List.cons_append, ← ih], ?_⟩
      cases hscan : scanComment cs with
      | nil =>
        -- the hash comes right after `c`, so that `c` is no backslash
        rw [hscan] at ih
        simpa using fun hc' => hpair comment hc' ih
      | cons d ds =>
        rw [hscan] at hlast
        simpa [List.getLast?_cons] using hlast
  | case4 => exact .inl rfl

/-- **A line without its comment** is what stands before its first bare hash, with a hash for every
backslash and hash.

**Proof sketch.** What stands before the first bare hash is the escaped form of a text. The scan
undoes the escape and stops at the bare hash, since the text has no backslash at its end. -/
theorem stripComment_eq_iff {line t : List Char} :
    stripComment line = t ↔ ∃ kept, IsBeforeComment line kept ∧ t = unescapeHash kept := by
  rw [stripComment_eq_scanComment]
  constructor
  · rintro rfl
    refine ⟨escapeHash (scanComment line), ⟨?_, allEscaped_escapeHash _⟩,
      (unescapeHash_escapeHash _).symm⟩
    obtain h | ⟨comment, h, hlast⟩ := cut_scanComment line
    · exact .inl h
    · exact .inr ⟨comment, h, by rwa [getLast?_escapeHash]⟩
  · rintro ⟨kept, ⟨hcut, hescaped⟩, rfl⟩
    have hkept := hescaped.eq_escapeHash
    obtain rfl | ⟨comment, rfl, hlast⟩ := hcut
    · have hscan := scanComment_escapeHash (unescapeHash line)
      rwa [← hkept] at hscan
    · have hbare : (unescapeHash kept).getLast? ≠ some '\\' := by
        rwa [← getLast?_escapeHash, ← hkept]
      have hscan := @scanComment_escapeHash_append (unescapeHash kept) ('#' :: comment)
        fun h => absurd h hbare
      rw [← hkept] at hscan
      rw [hscan, scanComment_hash, List.append_nil]

/-! ## Escaped texts with comments -/

/-- A backslash at the end of a text and the hash of a comment read as one more escape, and the
comment is read on. -/
theorem scanComment_escapeHash_backslash (t comment : List Char) :
    scanComment (escapeHash (t ++ ['\\']) ++ '#' :: comment) = t ++ '#' :: scanComment comment := by
  have hlast : escapeHash (t ++ ['\\']) = escapeHash t ++ ['\\'] := escapeHash_append t ['\\']
  have hnext : t.getLast? = some '\\' → ('\\' :: '#' :: comment).head? ≠ some '#' :=
    fun _ => by simp
  rw [hlast, List.append_assoc]
  exact scanComment_escapeHash_append hnext

/-- Behind an escaped text a comment is cut off exactly if the text has no backslash at its end. -/
theorem scanComment_escapeHash_hash_iff {t comment : List Char} :
    scanComment (escapeHash t ++ '#' :: comment) = t ↔ t.getLast? ≠ some '\\' := by
  constructor
  · intro h hlast
    obtain ⟨u, rfl⟩ := List.getLast?_eq_some_iff.1 hlast
    rw [scanComment_escapeHash_backslash] at h
    have hhash := List.append_cancel_left h
    cases hhash
  · intro hlast
    rw [scanComment_escapeHash_append fun h => absurd h hlast, scanComment_hash, List.append_nil]

/-- **Cutting the comment undoes the escape.** An escaped text is read back, whatever backslashes it
has. With a comment behind it, it is read back exactly if it does not end in a backslash. And the
shortcuts for lines without a hash and without an escaped hash give what the scan gives.

**Proof sketch.** No escaped form starts with a hash. So a backslash of the text can only be taken
for an escape if it is the last character and a hash comes right behind the text. -/
theorem stripComment_undoes_escapeHash :
    (∀ t, stripComment (escapeHash t) = t) ∧
      (∀ t comment, stripComment (escapeHash t ++ '#' :: comment) = t ↔ t.getLast? ≠ some '\\') ∧
      ∀ line, stripComment line = scanComment line := by
  refine ⟨fun t => ?_, fun t comment => ?_, stripComment_eq_scanComment⟩
  · rw [stripComment_eq_scanComment, scanComment_escapeHash]
  · rw [stripComment_eq_scanComment, scanComment_escapeHash_hash_iff]

/-- A backslash in front of a hash is kept, and at the end of a text it escapes the hash of a
comment. -/
example : stripComment (escapeHash ['a', '\\', '#'] ++ "# c".toList) = ['a', '\\', '#'] ∧
    stripComment (escapeHash ['a', '\\'] ++ "# c".toList) = ['a', '#', ' ', 'c'] := by
  decide

end ClassAccess.Text
