import ClassAccess.Proofs.Outcome
import ClassAccess.Proofs.Rule.Words
import ClassAccess.Proofs.Text.Comment

/-!
# The grammar of rule lines

Which lines are rules, what rule each of them is, and what is wrong with the others. A line may have
many faults; a stray blank is told before a wrong number of words, that before a bad access word,
and that before a bad member, and within an access word the level is told before the edits and of
these the first bad one.

## Main definitions

* `Line.IsContent` — a line without its comment and the blanks at its ends.
* `Line.IsGroups`, `Line.IsEdit`, `Line.IsBadEdit` — the groups of an access word, and what they
  mean.
* `Line.ReadsAccess`, `Line.ReadsTarget` — what an access word and the words behind it mean.
* `Line.Verdict` — the rule of a line, or its fault.

## Main results

* `Line.readAccess_eq_iff`, `Line.readTarget_eq_iff` — the two halves of a rule are read as they are
  meant.
* `Line.verdict_iff` — so is the content of a line.
* `Rule.parseLine_eq_iff_verdict` — and so is every line.

## Design

Each relation lists the cases of the grammar, with one constructor for each way to go wrong. That it
holds of exactly one outcome follows from its being the graph of a function.
-/

set_option autoImplicit false

namespace ClassAccess

/-! ## Lists of edits -/

namespace Edits

/-- Edits are equal if they are the same list. -/
theorem eq_of_toList {a b : Edits} (h : a.toList = b.toList) : a = b := by
  obtain ⟨l, hl⟩ := a
  obtain ⟨m, hm⟩ := b
  cases show l = m from h
  rfl

/-- There is one modifier, so that there is at most one edit. -/
theorem cases_toList (es : Edits) : es.toList = [] ∨ ∃ a, es.toList = [⟨.final, a⟩] := by
  rw [es.toList_eq]
  cases es.action? .final with
  | none => exact .inl rfl
  | some a => exact .inr ⟨a, rfl⟩

/-- An edit takes the place of every other one. -/
theorem toList_put (es : Edits) (e : Edit) : (es.put e).toList = [e] := by
  obtain ⟨_ | _, a⟩ := e
  show putList _ es.toList = _
  obtain h | ⟨b, h⟩ := es.cases_toList <;> rw [h] <;> rfl

/-- Of a list of edits the last one stays. -/
theorem toList_ofList (l : List Edit) : (ofList l).toList = l.getLast?.toList := by
  rcases l.eq_nil_or_concat' with rfl | ⟨l, e, rfl⟩
  · rfl
  · have hput : ofList (l ++ [e]) = (ofList l).put e := List.foldl_concat ..
    rw [hput, toList_put, List.getLast?_concat]
    rfl

/-- Putting the edits of a list into an empty one gives the list. -/
theorem ofList_toList (es : Edits) : ofList es.toList = es := by
  apply eq_of_toList
  rw [toList_ofList]
  obtain h | ⟨a, h⟩ := es.cases_toList <;> rw [h] <;> rfl

end Edits

namespace Line

open Text (IsSpan isSpan_iff isSpan_of_notMem isSpan_takeWhile)

/-! ## The content of a line -/

/-- `content` is the line `raw` cut at its first bare hash, with a hash for every backslash and
hash, and without the blanks at its ends. -/
def IsContent (raw content : List Char) : Prop :=
  ∃ kept, Text.IsBeforeComment raw kept ∧ Text.IsTrimmed (Text.unescapeHash kept) content

/-- **The content of a line** is what is left of it. -/
theorem content_eq_iff {raw : String} {cs : List Char} :
    content raw = cs ↔ IsContent raw.toList cs := by
  rw [content, Text.trim_eq_iff, IsContent]
  constructor
  · intro h
    obtain ⟨kept, hkept, hstrip⟩ :=
      Text.stripComment_eq_iff.1 (rfl : Text.stripComment raw.toList = _)
    exact ⟨kept, hkept, hstrip ▸ h⟩
  · rintro ⟨kept, hkept, h⟩
    rwa [Text.stripComment_eq_iff.2 ⟨kept, hkept, rfl⟩]

/-- A line that starts with a hash holds nothing. -/
theorem content_of_head_hash {raw : String} (h : raw.toList.head? = some '#') :
    content raw = [] := by
  obtain ⟨rest, hraw⟩ : ∃ rest, raw.toList = '#' :: rest := by
    cases hcs : raw.toList <;> simp_all
  refine content_eq_iff.2 ⟨[], ⟨.inr ⟨rest, hraw, by simp⟩, ?_⟩, Text.trim_eq_iff.1 rfl⟩
  intro before after hsplit
  simp at hsplit

/-! ## Edits -/

/-- What stands behind the level of an access word, in groups: a character for the sign, and all
letters and digits behind it. -/
inductive IsGroups : List Char → List (Char × List Char) → Prop
  /-- Nothing. -/
  | nil : IsGroups [] []
  /-- A group and more groups. -/
  | cons {sign : Char} {cs word rest : List Char} {groups : List (Char × List Char)} :
    IsSpan Char.isAlphanum cs word rest → IsGroups rest groups →
      IsGroups (sign :: cs) ((sign, word) :: groups)

/-- **Groups are found** as they stand. -/
theorem editGroups_eq_iff {cs : List Char} {groups : List (Char × List Char)} :
    editGroups cs = groups ↔ IsGroups cs groups := by
  constructor
  · rintro rfl
    fun_induction editGroups cs with
    | case1 => exact .nil
    | case2 c cs ih => exact .cons (isSpan_takeWhile _ _) ih
  · intro h
    induction h with
    | nil => rw [editGroups]
    | cons hspan _ ih =>
      obtain ⟨htake, hdrop⟩ := isSpan_iff.1 hspan
      rw [editGroups, htake, hdrop, ih]

/-- A group that is an edit: a sign and the letter of the final flag. -/
inductive IsEdit : Char × List Char → Edit → Prop
  /-- A plus sets the flag. -/
  | set : IsEdit ('+', ['f']) ⟨.final, .set⟩
  /-- A minus clears it. -/
  | clear : IsEdit ('-', ['f']) ⟨.final, .clear⟩

/-- A group that is no edit; its sign is looked at before its word. -/
inductive IsBadEdit : Char × List Char → ParseFault → Prop
  /-- The sign is neither plus nor minus. -/
  | sign {c : Char} {word : List Char} : c ≠ '+' → c ≠ '-' → IsBadEdit (c, word) (.invalidAction c)
  /-- The word is not that of the final flag. -/
  | word {c : Char} {word : List Char} : c = '+' ∨ c = '-' → word ≠ ['f'] →
    IsBadEdit (c, word) (.invalidModifier (String.ofList word))

/-- Only the letter of the final flag names a modifier. -/
theorem ofSymbol?_ofList (word : List Char) :
    Modifier.ofSymbol? (String.ofList word) = if word = ['f'] then some .final else none := by
  have hsymbol : Modifier.final.symbol = String.ofList word ↔ word = ['f'] := by
    rw [show Modifier.final.symbol = String.ofList ['f'] from rfl, String.ofList_inj, eq_comm]
  by_cases h : word = ['f']
  · rw [if_pos h, Modifier.ofSymbol?, Modifier.all, List.find?_cons_of_pos]
    exact decide_eq_true (hsymbol.2 h)
  · rw [if_neg h, Modifier.ofSymbol?, Modifier.all, List.find?_cons_of_neg, List.find?_nil]
    simpa using mt hsymbol.1 h

/-- Only plus and minus are signs. -/
theorem ofSign?_eq_none_iff {c : Char} : EditAction.ofSign? c = none ↔ c ≠ '+' ∧ c ≠ '-' := by
  by_cases hp : c = '+' <;> by_cases hm : c = '-' <;> simp [EditAction.ofSign?, hp, hm]

/-- A group is read as an edit if it is one. -/
theorem readEdit_eq_ok_iff {group : Char × List Char} {e : Edit} :
    readEdit group = .ok e ↔ IsEdit group e := by
  obtain ⟨c, word⟩ := group
  simp only [readEdit, ofSymbol?_ofList]
  constructor
  · intro h
    by_cases hp : c = '+'
    · by_cases hw : word = ['f'] <;> simp [hp, hw, EditAction.ofSign?] at h
      subst hp hw h
      exact .set
    · by_cases hm : c = '-'
      · by_cases hw : word = ['f'] <;> simp [hm, hw, EditAction.ofSign?] at h
        subst hm hw h
        exact .clear
      · simp [hp, hm, EditAction.ofSign?] at h
  · rintro (_ | _) <;> rfl

/-- A group is refused if it is no edit. -/
theorem readEdit_eq_error_iff {group : Char × List Char} {fault : ParseFault} :
    readEdit group = .error fault ↔ IsBadEdit group fault := by
  obtain ⟨c, word⟩ := group
  simp only [readEdit, ofSymbol?_ofList]
  constructor
  · intro h
    by_cases hs : c = '+' ∨ c = '-'
    · by_cases hw : word = ['f']
      · rcases hs with rfl | rfl <;> simp [hw, EditAction.ofSign?] at h
      · have hfault : fault = .invalidModifier (String.ofList word) := by
          rcases hs with rfl | rfl <;> simpa [hw, EditAction.ofSign?, eq_comm] using h
        rw [hfault]
        exact .word hs hw
    · rw [not_or] at hs
      rw [ofSign?_eq_none_iff.2 hs] at h
      cases h
      exact .sign hs.1 hs.2
  · rintro (⟨hp, hm⟩ | ⟨hs, hw⟩)
    · rw [ofSign?_eq_none_iff.2 ⟨hp, hm⟩]
    · rcases hs with rfl | rfl <;> simp [hw, EditAction.ofSign?]

/-- The edits of a word are read one by one. -/
theorem readEdits_eq_mapM (groups : List (Char × List Char)) :
    readEdits groups = groups.mapM readEdit := by
  induction groups with
  | nil => rfl
  | cons group groups ih => rw [readEdits, List.mapM_cons, ih]

/-! ## Access words -/

/-- What an access word means. -/
inductive ReadsAccess : List Char → Except ParseFault (Level × List Edit) → Prop
  /-- The letters at its start are no word for a level. -/
  | badLevel {access letters rest : List Char} : IsSpan Char.isAlpha access letters rest →
    (∀ level : Level, String.ofList letters ≠ level.word) →
    ReadsAccess access (.error (.invalidLevel (String.ofList letters)))
  /-- Some group behind the level is no edit, and all groups before it are. -/
  | badEdit {access letters rest : List Char} {level : Level}
    {good others : List (Char × List Char)} {bad : Char × List Char} {fault : ParseFault} :
    IsSpan Char.isAlpha access letters rest →
    String.ofList letters = level.word → IsGroups rest (good ++ bad :: others) →
    (∀ group ∈ good, ∃ e, IsEdit group e) → IsBadEdit bad fault → ReadsAccess access (.error fault)
  /-- A level, and edits behind it. -/
  | access {access letters rest : List Char} {level : Level} {groups : List (Char × List Char)}
    {edits : List Edit} : IsSpan Char.isAlpha access letters rest →
    String.ofList letters = level.word → IsGroups rest groups → List.Forall₂ IsEdit groups edits →
    ReadsAccess access (.ok (level, edits))

/-- An access word with a level at its start is as good as its edits. -/
theorem readAccess_of_level {access letters rest : List Char} {level : Level}
    {groups : List (Char × List Char)} (hspan : IsSpan Char.isAlpha access letters rest)
    (hword : String.ofList letters = level.word) (hgroups : IsGroups rest groups) :
    readAccess access = (do return (level, ← groups.mapM readEdit)) := by
  obtain ⟨htake, hdrop⟩ := isSpan_iff.1 hspan
  simp only [readAccess, htake, hdrop, Level.ofWord?_eq_some_iff.2 hword,
    editGroups_eq_iff.2 hgroups, readEdits_eq_mapM]

/-- **An access word is read as it is meant.** -/
theorem readAccess_eq_iff {access : List Char} {outcome : Except ParseFault (Level × List Edit)} :
    readAccess access = outcome ↔ ReadsAccess access outcome := by
  constructor
  · rintro rfl
    have hspan := isSpan_takeWhile Char.isAlpha access
    cases hlevel : Level.ofWord? (String.ofList (access.takeWhile Char.isAlpha)) with
    | none =>
      simp only [readAccess, hlevel]
      refine .badLevel hspan fun level hword => ?_
      rw [Level.ofWord?_eq_some_iff.2 hword] at hlevel
      cases hlevel
    | some level =>
      have hword := Level.ofWord?_eq_some_iff.1 hlevel
      have hgroups := editGroups_eq_iff.1 (rfl : editGroups (access.dropWhile Char.isAlpha) = _)
      rw [readAccess_of_level hspan hword hgroups]
      cases hedits : (editGroups (access.dropWhile Char.isAlpha)).mapM readEdit with
      | error fault =>
        obtain ⟨good, bad, others, hsplit, hgood, hbad⟩ := mapM_eq_error_iff.1 hedits
        rw [hsplit] at hgroups
        exact .badEdit hspan hword hgroups
          (fun group hgroup => (hgood group hgroup).imp fun _ => readEdit_eq_ok_iff.1)
          (readEdit_eq_error_iff.1 hbad)
      | ok edits =>
        exact .access hspan hword hgroups
          ((mapM_eq_ok_iff.1 hedits).imp fun _ _ => readEdit_eq_ok_iff.1)
  · intro h
    cases h with
    | badLevel hspan hlevel =>
      have hnone : Level.ofWord? (String.ofList _) = none :=
        Option.eq_none_iff_forall_ne_some.2 fun level h =>
          hlevel level (Level.ofWord?_eq_some_iff.1 h)
      simp only [readAccess, (isSpan_iff.1 hspan).1, hnone]
    | @badEdit _ _ _ good others bad fault hspan hword hgroups hgood hbad =>
      have hread : ∀ group ∈ good, ∃ e, readEdit group = .ok e :=
        fun group hgroup => (hgood group hgroup).imp fun _ => readEdit_eq_ok_iff.2
      have hedits : (good ++ bad :: others).mapM readEdit = .error fault :=
        mapM_eq_error_iff.2 ⟨good, bad, others, rfl, hread, readEdit_eq_error_iff.2 hbad⟩
      rw [readAccess_of_level hspan hword hgroups, hedits]
      rfl
    | access hspan hword hgroups hforall =>
      have hedits := mapM_eq_ok_iff.2 (hforall.imp fun _ _ => readEdit_eq_ok_iff.2)
      rw [readAccess_of_level hspan hword hgroups, hedits]
      rfl

/-! ## Targets -/

/-- What the words behind the access word mean. -/
inductive ReadsTarget (className : String) : Option (List Char) → Except ParseFault Target → Prop
  /-- No member: the class as a whole. -/
  | classLevel : ReadsTarget className none (.ok (.classLevel (dotted className)))
  /-- A member without an opening parenthesis: a field. -/
  | field {name : List Char} : '(' ∉ name →
    ReadsTarget className (some name) (.ok (.field (dotted className) (String.ofList name)))
  /-- A member with an opening parenthesis and no closing one behind the first of them. -/
  | malformed {name rest : List Char} : '(' ∉ name → ')' ∉ rest →
    ReadsTarget className (some (name ++ '(' :: rest))
      (.error (.malformedDescriptor (String.ofList (name ++ '(' :: rest))))
  /-- A member with both parentheses and a name that is not just a star: a method. -/
  | method {name rest : List Char} : '(' ∉ name → ')' ∈ rest → name ≠ ['*'] →
    ReadsTarget className (some (name ++ '(' :: rest))
      (.ok (.method (dotted className) (String.ofList (name ++ '(' :: rest))))
  /-- A star in front of the parentheses: every method. -/
  | anyMethod {rest : List Char} : ')' ∈ rest →
    ReadsTarget className (some ('*' :: '(' :: rest))
      (.ok (.method (dotted className) Target.anyMethod))

/-- A signature starts with a star and a parenthesis if its name is just a star. -/
theorem star_prefix_iff {name rest : List Char} (h : '(' ∉ name) :
    ['*', '('] <+: name ++ '(' :: rest ↔ name = ['*'] := by
  constructor
  · rintro ⟨tail, htail⟩
    obtain _ | ⟨c, _ | ⟨d, name⟩⟩ := name
    · simp at htail
    · simp only [List.cons_append, List.nil_append, List.cons.injEq] at htail
      rw [← htail.1]
    · simp only [List.cons_append, List.nil_append, List.cons.injEq] at htail
      exact absurd (htail.2.1 ▸ List.mem_cons_of_mem c List.mem_cons_self) h
  · rintro rfl
    exact ⟨rest, rfl⟩

/-- Only a name that is just a star makes a signature stand for every method. -/
theorem forMethod_eq {className : String} {name rest : List Char} (h : '(' ∉ name) :
    Target.forMethod className (String.ofList (name ++ '(' :: rest)) =
      .method (dotted className)
        (if name = ['*'] then Target.anyMethod else String.ofList (name ++ '(' :: rest)) := by
  simp only [Target.forMethod, String.toList_ofList, List.isPrefixOf_iff_prefix, star_prefix_iff h]

/-- A member without a parenthesis is a field. -/
theorem readTarget_field {className : String} {member : List Char} (h : '(' ∉ member) :
    readTarget className (some member) =
      .ok (.field (dotted className) (String.ofList member)) := by
  have hdrop : member.dropWhile (· ≠ '(') = [] :=
    List.dropWhile_eq_nil_iff.2 fun c hc => decide_eq_true fun he => h (he ▸ hc)
  simp only [readTarget, hdrop, Target.forField]

/-- A member with one is a method, if another one closes it. -/
theorem readTarget_parenthesis {className : String} {name rest : List Char} (h : '(' ∉ name) :
    readTarget className (some (name ++ '(' :: rest)) =
      if ')' ∈ rest then .ok (Target.forMethod className (String.ofList (name ++ '(' :: rest)))
      else .error (.malformedDescriptor (String.ofList (name ++ '(' :: rest))) := by
  have hdrop : (name ++ '(' :: rest).dropWhile (· ≠ '(') = '(' :: rest :=
    (isSpan_iff.1 (isSpan_of_notMem h)).2
  simp only [readTarget, hdrop]
  by_cases hclose : ')' ∈ rest <;> simp [hclose]

/-- A text has no parenthesis, or it has a first one. -/
theorem cases_parenthesis (member : List Char) :
    '(' ∉ member ∨ ∃ name rest, '(' ∉ name ∧ member = name ++ '(' :: rest := by
  by_cases h : '(' ∈ member
  · obtain ⟨name, rest, rfl, hname⟩ := List.eq_append_cons_of_mem h
    exact .inr ⟨name, rest, hname, rfl⟩
  · exact .inl h

/-- **The words behind the access word are read as they are meant.** -/
theorem readTarget_eq_iff {className : String} {member : Option (List Char)}
    {outcome : Except ParseFault Target} :
    readTarget className member = outcome ↔ ReadsTarget className member outcome := by
  constructor
  · rintro rfl
    cases member with
    | none => exact .classLevel
    | some member =>
      obtain hname | ⟨name, rest, hname, rfl⟩ := cases_parenthesis member
      · rw [readTarget_field hname]
        exact .field hname
      · rw [readTarget_parenthesis hname]
        by_cases hclose : ')' ∈ rest
        · rw [if_pos hclose, forMethod_eq hname]
          by_cases hstar : name = ['*']
          · rw [if_pos hstar, hstar]
            exact .anyMethod hclose
          · rw [if_neg hstar]
            exact .method hname hclose hstar
        · rw [if_neg hclose]
          exact .malformed hname hclose
  · intro h
    cases h with
    | classLevel => rfl
    | field hname => exact readTarget_field hname
    | malformed hname hclose => rw [readTarget_parenthesis hname, if_neg hclose]
    | method hname hclose hstar =>
      rw [readTarget_parenthesis hname, if_pos hclose, forMethod_eq hname, if_neg hstar]
    | anyMethod hclose =>
      have hname : '(' ∉ ['*'] := by decide
      exact (readTarget_parenthesis hname).trans
        (by rw [if_pos hclose, forMethod_eq hname, if_pos rfl])

/-! ## Whole lines -/

/-- What becomes of the content of a line: no rule on an empty line, the rule of any other, or what
is wrong with it. Of several faults the one in the first of these cases is told. -/
inductive Verdict : List Char → Except ParseFault (Option Rule) → Prop
  /-- Nothing is left of the line. -/
  | empty : Verdict [] (.ok none)
  /-- There is a stray blank; the first one is told. -/
  | stray {cs before after : List Char} {blank : Char} :
    IsSpan (fun c => !isStray c) cs before (blank :: after) →
    Verdict cs (.error (.strayBlank (String.ofList before) blank))
  /-- There are not two or three words. -/
  | wordCount {cs : List Char} {ws : List (List Char)} : Splits cs ws → ws.length ≠ 2 →
    ws.length ≠ 3 → Verdict cs (.error (.wordCount ws.length))
  /-- The access word is wrong. -/
  | badAccess {cs access className : List Char} {member : Option (List Char)} {fault : ParseFault} :
    Splits cs (access :: className :: member.toList) → ReadsAccess access (.error fault) →
    Verdict cs (.error fault)
  /-- The member is wrong. -/
  | badTarget {cs access className : List Char} {member : Option (List Char)} {level : Level}
    {edits : List Edit} {fault : ParseFault} :
    Splits cs (access :: className :: member.toList) → ReadsAccess access (.ok (level, edits)) →
    ReadsTarget (String.ofList className) member (.error fault) → Verdict cs (.error fault)
  /-- A rule. Of its edits the last one stays. -/
  | rule {cs access className : List Char} {member : Option (List Char)} {edits : List Edit}
    {r : Rule} :
    Splits cs (access :: className :: member.toList) → ReadsAccess access (.ok (r.level, edits)) →
    ReadsTarget (String.ofList className) member (.ok r.target) →
    r.edits.toList = edits.getLast?.toList → Verdict cs (.ok (some r))

/-- A line of two or three words is as good as its access word and its target. -/
theorem readRule_of_words {cs access className : List Char} {member : Option (List Char)}
    (h : words cs = (access :: className :: member.toList, [])) :
    readRule cs = (do
      let (level, edits) ← readAccess access
      let target ← readTarget (String.ofList className) member
      return Rule.ofEdits target level edits) := by
  cases member <;> simp only [readRule, h, Option.toList]

/-- A line of fewer or more words is none. -/
theorem readRule_of_wordCount {cs : List Char} {ws : List (List Char)} (h : words cs = (ws, []))
    (h₂ : ws.length ≠ 2) (h₃ : ws.length ≠ 3) : readRule cs = .error (.wordCount ws.length) := by
  obtain _ | ⟨_, _ | ⟨_, _ | ⟨_, _ | ⟨_, ws⟩⟩⟩⟩ := ws
  · simp only [readRule, h]
  · simp only [readRule, h]
  · exact absurd rfl h₂
  · exact absurd rfl h₃
  · simp only [readRule, h]

/-- A line with a stray blank is none. -/
theorem readRule_of_stray {cs before after : List Char} {blank : Char} {ws : List (List Char)}
    (h : words cs = (ws, blank :: after)) (hcs : cs = before ++ blank :: after) :
    readRule cs = .error (.strayBlank (String.ofList before) blank) := by
  have hbefore : cs.take (cs.length - (blank :: after).length) = before := by
    rw [hcs, List.length_append, Nat.add_sub_cancel, List.take_left]
  simp only [readRule, h, hbefore]

/-- A rule is made of a level, of edits of which the last one stays, and of a target. -/
theorem ofEdits_eq_iff {target : Target} {level : Level} {edits : List Edit} {r : Rule} :
    Rule.ofEdits target level edits = r ↔
      r.target = target ∧ r.level = level ∧ r.edits.toList = edits.getLast?.toList := by
  rw [← Edits.toList_ofList]
  constructor
  · rintro rfl
    exact ⟨rfl, rfl, rfl⟩
  · rintro ⟨rfl, rfl, hedits⟩
    rw [Rule.ofEdits, Edits.eq_of_toList hedits.symm]

/-- A line that is made of words is read as it is meant. -/
theorem verdict_of_splits {cs : List Char} {ws : List (List Char)} (hsplits : Splits cs ws)
    (hwords : words cs = (ws, [])) : Verdict cs (some <$> readRule cs) := by
  by_cases hcount : ws.length = 2 ∨ ws.length = 3
  · obtain ⟨access, className, member, rfl⟩ : ∃ access className, ∃ member : Option (List Char),
        ws = access :: className :: member.toList := by
      rcases hcount with h | h
      · obtain ⟨access, className, rfl⟩ := List.length_eq_two.1 h
        exact ⟨access, className, none, rfl⟩
      · obtain ⟨access, className, member, rfl⟩ := List.length_eq_three.1 h
        exact ⟨access, className, some member, rfl⟩
    rw [readRule_of_words hwords]
    cases haccess : readAccess access with
    | error fault => exact .badAccess hsplits (readAccess_eq_iff.1 haccess)
    | ok p =>
      cases htarget : readTarget (String.ofList className) member with
      | error fault =>
        exact .badTarget hsplits (readAccess_eq_iff.1 haccess) (readTarget_eq_iff.1 htarget)
      | ok target =>
        exact .rule hsplits (readAccess_eq_iff.1 haccess) (readTarget_eq_iff.1 htarget)
          (Edits.toList_ofList p.2)
  · rw [not_or] at hcount
    rw [readRule_of_wordCount hwords hcount.1 hcount.2]
    exact .wordCount hsplits hcount.1 hcount.2

section Trimmed

variable {cs : List Char} (hstart : ∀ c, cs.head? = some c → Text.isBlank c = false)
  (hstop : ∀ c, cs.getLast? = some c → Text.isBlank c = false)

include hstart hstop in
/-- **The content of a line is read as it is meant.**

**Proof sketch.** A trimmed line that is not empty has a stray blank or is made of words. In the
second case the number of words decides, then the access word, then the target; each of them is read
as it is meant. -/
theorem verdict_iff (hne : cs ≠ []) {outcome : Except ParseFault (Option Rule)} :
    some <$> readRule cs = outcome ↔ Verdict cs outcome := by
  have hwords : ∀ {ws}, Splits cs ws → words cs = (ws, []) := (words_eq_iff_splits hne hstop).2
  constructor
  · rintro rfl
    cases hrest : (words cs).2 with
    | nil =>
      have hw : words cs = ((words cs).1, []) := Prod.ext rfl hrest
      exact verdict_of_splits ((words_eq_iff_splits hne hstop).1 hw) hw
    | cons blank after =>
      have hw : words cs = ((words cs).1, blank :: after) := Prod.ext rfl hrest
      obtain ⟨before, hspan⟩ := (exists_words_stray_iff hne hstart hstop).1 ⟨_, hw⟩
      rw [readRule_of_stray hw hspan.split]
      exact .stray hspan
  · intro h
    cases h with
    | empty => exact absurd rfl hne
    | stray hspan =>
      obtain ⟨ws, hw⟩ := (exists_words_stray_iff hne hstart hstop).2 ⟨_, hspan⟩
      rw [readRule_of_stray hw hspan.split]
      rfl
    | wordCount hsplits h₂ h₃ =>
      rw [readRule_of_wordCount (hwords hsplits) h₂ h₃]
      rfl
    | badAccess hsplits haccess =>
      rw [readRule_of_words (hwords hsplits), readAccess_eq_iff.2 haccess]
      rfl
    | badTarget hsplits haccess htarget =>
      rw [readRule_of_words (hwords hsplits), readAccess_eq_iff.2 haccess]
      show some <$> (readTarget _ _ >>= fun target => pure (Rule.ofEdits target _ _)) = _
      rw [readTarget_eq_iff.2 htarget]
      rfl
    | rule hsplits haccess htarget hedits =>
      rw [readRule_of_words (hwords hsplits), readAccess_eq_iff.2 haccess]
      show some <$> (readTarget _ _ >>= fun target => pure (Rule.ofEdits target _ _)) = _
      rw [readTarget_eq_iff.2 htarget, ← ofEdits_eq_iff.2 ⟨rfl, rfl, hedits⟩]
      rfl

end Trimmed

/-- Nothing but emptiness is said of an empty line. -/
theorem verdict_nil_iff {outcome : Except ParseFault (Option Rule)} :
    Verdict [] outcome ↔ outcome = .ok none := by
  have hsplits : ∀ {ws}, ¬Splits [] ws := fun h => by
    obtain ⟨c, rest, h, -⟩ := h.exists_cons
    cases h
  constructor
  · intro h
    cases h with
    | empty => rfl
    | stray hspan => exact absurd hspan.split (by simp)
    | wordCount h | badAccess h | badTarget h | rule h => exact absurd h hsplits
  · rintro rfl
    exact .empty

end Line

namespace Rule

/-- A line that holds nothing is no rule. -/
theorem parseLine_of_empty {number : Nat} {raw : String} (h : Line.content raw = []) :
    parseLine number raw = .ok none := by
  rw [parseLine, h]
  split <;> rfl

/-- A line that holds something is as good as its content. -/
theorem parseLine_of_content {number : Nat} {raw : String} (h : Line.content raw ≠ []) :
    parseLine number raw = (some <$> Line.readRule (Line.content raw)).mapError
      fun fault => ⟨number, String.ofList (Line.content raw), fault⟩ := by
  obtain ⟨c, cs, hcs⟩ := List.exists_cons_of_ne_nil h
  rw [parseLine, if_neg (mt Line.content_of_head_hash h), hcs]
  cases hrule : Line.readRule (c :: cs) <;> simp only [hrule] <;> rfl

/-- **A line is read as its content is meant**; a fault is told with the number of the line and its
content. -/
theorem parseLine_eq_iff_verdict {number : Nat} {raw : String}
    {outcome : Except ParseError (Option Rule)} :
    parseLine number raw = outcome ↔ ∃ content verdict, Line.IsContent raw.toList content ∧
      Line.Verdict content verdict ∧
        outcome = verdict.mapError fun fault => ⟨number, String.ofList content, fault⟩ := by
  have hcontent : Line.IsContent raw.toList (Line.content raw) := Line.content_eq_iff.1 rfl
  have ⟨kept, _, htrimmed⟩ := hcontent
  constructor
  · rintro rfl
    refine ⟨Line.content raw, ?_⟩
    by_cases hne : Line.content raw = []
    · refine ⟨.ok none, hcontent, hne ▸ .empty, ?_⟩
      rw [parseLine_of_empty hne]
      rfl
    · exact ⟨some <$> Line.readRule (Line.content raw), hcontent,
          (Line.verdict_iff htrimmed.start htrimmed.stop hne).1 rfl, parseLine_of_content hne⟩
  · rintro ⟨content, verdict, hcontent', hverdict, rfl⟩
    obtain rfl := Line.content_eq_iff.2 hcontent'
    by_cases hne : Line.content raw = []
    · rw [parseLine_of_empty hne]
      rw [hne, Line.verdict_nil_iff] at hverdict
      rw [hverdict]
      rfl
    · rw [parseLine_of_content hne, (Line.verdict_iff htrimmed.start htrimmed.stop hne).2 hverdict]

/-- **Lines are decided by the grammar**: every line has one content and every access word one
division into groups, and what becomes of a line is the verdict about its content and nothing
else. -/
theorem parseLine_decides :
    (∀ (number : Nat) (raw : String) (outcome : Except ParseError (Option Rule)),
      parseLine number raw = outcome ↔ ∃ content verdict, Line.IsContent raw.toList content ∧
        Line.Verdict content verdict ∧
          outcome = verdict.mapError fun fault => ⟨number, String.ofList content, fault⟩) ∧
      (∀ line, ∃! content, Line.IsContent line content) ∧
        ∀ word, ∃! groups, Line.IsGroups word groups := by
  refine ⟨fun _ _ _ => parseLine_eq_iff_verdict, fun line => ?_, fun word => ?_⟩
  · have hiff : ∀ cs, Line.content (String.ofList line) = cs ↔ Line.IsContent line cs := by
      intro cs
      rw [Line.content_eq_iff, String.toList_ofList]
    exact ⟨_, (hiff _).1 rfl, fun cs hcs => ((hiff cs).2 hcs).symm⟩
  · exact ⟨_, Line.editGroups_eq_iff.1 rfl, fun groups h => (Line.editGroups_eq_iff.2 h).symm⟩

/-- Of three faults on a line the sign of the first bad group is told. -/
example : parseLine 7 "public*x+g a.B f( # note" =
    .error ⟨7, "public*x+g a.B f(", .invalidAction '*'⟩ := by
  decide +kernel

end Rule

end ClassAccess
