import ClassAccess.Proofs.RuleSet.Lookup
import ClassAccess.RuleSet.Warning

/-!
# Rules that other rules overrule

Of several rules for one target only one counts: for a class as a whole the first one, for a member
the last one. The others are overruled, and they are the rules that the warnings about duplicates
name.

## Main definitions

* `Warning.ignored?` — the rule that a warning about a duplicate says is ignored.
* `Overruled` — whether an earlier or a later rule counts in place of a rule.
* `overruled`, `effective` — the overruled rules of a list, and the others.

## Main results

* `filterMap_ignored?_ofRules` — the warnings about duplicates name the overruled rules.
* `filter_effective` — for each target one of the other rules is left, the one that counts.
* `decisive_effective` — so the same rule counts among them.
* `overruled_effective` — and none of them is overruled.

## Implementation notes

Whether a rule is overruled depends on the rules before it and on those after it. All inductions are
on the rules `rest` that are still ahead, with the rules `before` that are already behind; `sift` is
what is left of `rest` then. The scan for duplicate rules for classes remembers only some of the
rules behind it, and it is enough that they have the same class-level targets.
-/

set_option autoImplicit false

namespace ClassAccess

/-- The rule that a warning about a duplicate says is ignored. -/
def Warning.ignored? : Warning → Option Rule
  | duplicateClassRule _ ignored => some ignored
  | duplicateMemberRule ignored => some ignored
  | unmatchableMethod _ => none

/-- The rule `r` at place `i` of a list is overruled: by an earlier rule for the same class if it is
for a class as a whole, and by a later rule for the same member if it is for a member. -/
def Overruled (rules : List Rule) (i : Nat) (r : Rule) : Prop :=
  if r.target.isClassLevel then ∃ q ∈ rules.take i, q.target = r.target
  else ∃ q ∈ rules.drop (i + 1), q.target = r.target

instance (rules : List Rule) (i : Nat) (r : Rule) : Decidable (Overruled rules i r) :=
  inferInstanceAs (Decidable (if r.target.isClassLevel then _ else _))

/-- The rules of a list that are overruled, in order. -/
def overruled (rules : List Rule) : List Rule :=
  (rules.zipIdx.filter fun entry => Overruled rules entry.2 entry.1).map (·.1)

/-- The rules of a list that are not overruled, in order. -/
def effective (rules : List Rule) : List Rule :=
  (rules.zipIdx.filter fun entry => ¬ Overruled rules entry.2 entry.1).map (·.1)

/-! ## Rules behind and rules ahead -/

/-- Of the rules `rest`, with the rules `before` in front of them, those that are overruled, or the
others. -/
def sift (gone : Bool) (before rest : List Rule) : List Rule :=
  ((rest.zipIdx before.length).filter fun entry =>
    decide (Overruled (before ++ rest) entry.2 entry.1) = gone).map (·.1)

/-- A rule is overruled by those behind it or by those ahead of it. -/
theorem overruled_iff {before rest : List Rule} {r : Rule} :
    Overruled (before ++ r :: rest) before.length r ↔
      if r.target.isClassLevel then ∃ q ∈ before, q.target = r.target
      else ∃ q ∈ rest, q.target = r.target := by
  simp [Overruled]

/-- One more rule is behind. -/
theorem sift_cons (gone : Bool) (before : List Rule) (r : Rule) (rest : List Rule) :
    sift gone before (r :: rest) =
      (if decide (Overruled (before ++ r :: rest) before.length r) = gone then [r] else []) ++
        sift gone (before ++ [r]) rest := by
  have hlist : before ++ r :: rest = before ++ [r] ++ rest := by simp
  have hlength : before.length + 1 = (before ++ [r]).length := by simp
  rw [sift, sift, List.zipIdx_cons, List.filter_cons, hlength, hlist]
  by_cases h : decide (Overruled (before ++ [r] ++ rest) before.length r) = gone
  · rw [if_pos h, if_pos (decide_eq_true h), List.map_cons]
    rfl
  · rw [if_neg h, if_neg (by simpa using h), List.nil_append]

section Filter

variable {p : Rule → Bool} {r : Rule} (gone : Bool) (before rest : List Rule)

/-- Among rules of some kind, one more rule of that kind is behind. -/
theorem filter_sift_cons_of_pos (hr : p r = true) :
    (sift gone before (r :: rest)).filter p =
      (if decide (Overruled (before ++ r :: rest) before.length r) = gone then [r] else []) ++
        (sift gone (before ++ [r]) rest).filter p := by
  rw [sift_cons, List.filter_append]
  split <;> simp [hr]

/-- Among rules of some kind, a rule of another kind does not matter. -/
theorem filter_sift_cons_of_neg (hr : p r = false) :
    (sift gone before (r :: rest)).filter p = (sift gone (before ++ [r]) rest).filter p := by
  rw [sift_cons, List.filter_append]
  split <;> simp [hr]

end Filter

/-- The overruled rules of a list have none behind them at first. -/
theorem overruled_eq_sift (rules : List Rule) : overruled rules = sift true [] rules := by
  simp [overruled, sift]

/-- Neither have the others. -/
theorem effective_eq_sift (rules : List Rule) : effective rules = sift false [] rules := by
  simp [effective, sift]

/-! ## Warnings -/

namespace Warning

/-- The warnings for members name the overruled rules for members, last one first. -/
theorem shadowedRules_eq (before rest : List Rule) :
    shadowedRules rest =
      ((sift true before rest).filter fun r => !r.target.isClassLevel).reverse := by
  induction rest generalizing before with
  | nil => rfl
  | cons r rest ih =>
    rw [shadowedRules, ih (before ++ [r])]
    by_cases hr : r.target.isClassLevel = true
    · rw [filter_sift_cons_of_neg true before rest (by simp [hr])]
      simp [hr]
    · have hover : Overruled (before ++ r :: rest) before.length r ↔
          ∃ q ∈ rest, q.target = r.target := by
        rw [overruled_iff, if_neg hr]
      rw [filter_sift_cons_of_pos true before rest (by simp [hr]), List.reverse_append]
      congr 1
      by_cases hlater : ∃ q ∈ rest, q.target = r.target
      · have hany : (rest.any fun later => later.target = r.target) = true := by simpa using hlater
        simp [hover.2 hlater, hany, hr]
      · have hany : (rest.any fun later => later.target = r.target) = false := by simpa using hlater
        simp [mt hover.1 hlater, hany]

/-- There is a rule for a target among some rules and another one. -/
theorem exists_target_concat {before : List Rule} {r : Rule} {t : Target} :
    (∃ q ∈ before ++ [r], q.target = t) ↔ (∃ q ∈ before, q.target = t) ∨ r.target = t := by
  simp [or_and_right, exists_or]

/-- The warnings for classes name the overruled rules for classes as a whole, if the first rules
that are remembered are for the same classes as the rules behind. -/
theorem filterMap_ignored?_duplicateClassRules {firsts before : List Rule}
    (hfirsts : ∀ t : Target, t.isClassLevel = true →
      ((∃ f ∈ firsts, f.target = t) ↔ ∃ q ∈ before, q.target = t)) (rest : List Rule) :
    (duplicateClassRules firsts rest).filterMap ignored? =
      (sift true before rest).filter fun r => r.target.isClassLevel := by
  induction rest generalizing firsts before with
  | nil => rfl
  | cons r rest ih =>
    rw [duplicateClassRules]
    by_cases hr : r.target.isClassLevel = true
    · have hover : Overruled (before ++ r :: rest) before.length r ↔
          ∃ f ∈ firsts, f.target = r.target := by
        rw [overruled_iff, if_pos hr, hfirsts _ hr]
      rw [if_pos hr, filter_sift_cons_of_pos true before rest hr]
      cases hfind : firsts.find? fun first => first.target = r.target with
      | some first =>
        have hmem : ∃ f ∈ firsts, f.target = r.target :=
          ⟨first, List.mem_of_find?_eq_some hfind, by simpa using List.find?_some hfind⟩
        -- the class of `r` is remembered already
        have hnext : ∀ t : Target, t.isClassLevel = true →
            ((∃ f ∈ firsts, f.target = t) ↔ ∃ q ∈ before ++ [r], q.target = t) := by
          intro t ht
          rw [exists_target_concat, ← hfirsts t ht]
          exact (or_iff_left_of_imp fun hrt => hrt ▸ hmem).symm
        simp [hover.2 hmem, ignored?, ih hnext]
      | none =>
        have hnone : ¬∃ f ∈ firsts, f.target = r.target := by
          simpa using List.find?_eq_none.1 hfind
        have hnext : ∀ t : Target, t.isClassLevel = true →
            ((∃ f ∈ firsts ++ [r], f.target = t) ↔ ∃ q ∈ before ++ [r], q.target = t) := by
          intro t ht
          rw [exists_target_concat, exists_target_concat, hfirsts t ht]
        simp [mt hover.1 hnone, ih hnext]
    · have hnext : ∀ t : Target, t.isClassLevel = true →
          ((∃ f ∈ firsts, f.target = t) ↔ ∃ q ∈ before ++ [r], q.target = t) := by
        intro t ht
        rw [exists_target_concat, ← hfirsts t ht]
        have hrt : r.target ≠ t := fun hrt => hr (hrt ▸ ht)
        exact (or_iff_left hrt).symm
      rw [if_neg hr, ih hnext, filter_sift_cons_of_neg true before rest (Bool.not_eq_true _ ▸ hr)]

end Warning

/-- **The warnings about duplicates** name the overruled rules: those for classes as a whole in
order, then those for members from the last one to the first. -/
theorem filterMap_ignored?_ofRules (rules : List Rule) :
    (Warning.ofRules rules).filterMap Warning.ignored? =
      ((overruled rules).filter fun r => r.target.isClassLevel) ++
        ((overruled rules).filter fun r => !r.target.isClassLevel).reverse := by
  have hclass : (Warning.duplicateClassRules [] rules).filterMap Warning.ignored? =
      (sift true [] rules).filter fun r => r.target.isClassLevel :=
    Warning.filterMap_ignored?_duplicateClassRules (fun _ _ => Iff.rfl) rules
  have hmember : ((Warning.shadowedRules rules).map Warning.duplicateMemberRule).filterMap
      Warning.ignored? = Warning.shadowedRules rules := by
    rw [List.filterMap_map]
    exact List.filterMap_some
  have hunmatchable : ((rules.filter Warning.isUnmatchable).map Warning.unmatchableMethod).filterMap
      Warning.ignored? = [] := by
    rw [List.filterMap_map, List.filterMap_eq_nil_iff]
    intro r _
    rfl
  rw [Warning.ofRules, List.filterMap_append, List.filterMap_append, hclass, hmember, hunmatchable,
    List.append_nil, overruled_eq_sift, Warning.shadowedRules_eq []]

/-! ## What is left -/

/-- Of the rules for a class as a whole, the first one is left, unless there is one behind. -/
theorem filter_sift_of_classLevel {t : Target} (ht : t.isClassLevel = true)
    (before rest : List Rule) :
    ((sift false before rest).filter fun q => q.target = t) =
      if ∃ q ∈ before, q.target = t then [] else (firstFor rest t).toList := by
  induction rest generalizing before with
  | nil => simp [sift, firstFor]
  | cons r rest ih =>
    by_cases hrt : r.target = t
    · have hover : Overruled (before ++ r :: rest) before.length r ↔
          ∃ q ∈ before, q.target = t := by
        rw [overruled_iff, hrt, if_pos ht]
      have hbehind : ∃ q ∈ before ++ [r], q.target = t := ⟨r, by simp, hrt⟩
      have hfirst : firstFor (r :: rest) t = some r := by simp [firstFor, hrt]
      rw [filter_sift_cons_of_pos false before rest (decide_eq_true hrt), ih, if_pos hbehind,
        hfirst]
      by_cases hbefore : ∃ q ∈ before, q.target = t
      · rw [if_pos hbefore, decide_eq_true (hover.2 hbefore)]
        rfl
      · rw [if_neg hbefore, decide_eq_false (mt hover.1 hbefore)]
        rfl
    · have hbehind : (∃ q ∈ before ++ [r], q.target = t) ↔ ∃ q ∈ before, q.target = t := by
        simp [or_and_right, exists_or, hrt]
      have hfirst : firstFor (r :: rest) t = firstFor rest t := by simp [firstFor, hrt]
      rw [filter_sift_cons_of_neg false before rest (decide_eq_false hrt), ih, hfirst]
      simp only [hbehind]

/-- Of the rules for a member, the last one is left. -/
theorem filter_sift_of_member {t : Target} (ht : t.isClassLevel = false) (before rest : List Rule) :
    ((sift false before rest).filter fun q => q.target = t) = (lastFor rest t).toList := by
  induction rest generalizing before with
  | nil => rfl
  | cons r rest ih =>
    by_cases hrt : r.target = t
    · have hover : Overruled (before ++ r :: rest) before.length r ↔ ∃ q ∈ rest, q.target = t := by
        rw [overruled_iff, hrt, if_neg (by simp [ht])]
      have hlast : lastFor (r :: rest) t = some ((lastFor rest t).getD r) := by
        rw [lastFor, List.filter_cons_of_pos (by simpa using hrt), List.getLast?_cons]
        rfl
      rw [filter_sift_cons_of_pos false before rest (decide_eq_true hrt), ih, hlast]
      cases hahead : lastFor rest t with
      | some q =>
        have hlater : ∃ q ∈ rest, q.target = t :=
          ⟨q, mem_of_lastFor hahead, target_of_lastFor hahead⟩
        rw [decide_eq_true (hover.2 hlater)]
        rfl
      | none =>
        have hlater : ¬∃ q ∈ rest, q.target = t := by
          rw [lastFor, List.getLast?_eq_none_iff, List.filter_eq_nil_iff] at hahead
          simpa using hahead
        rw [decide_eq_false (mt hover.1 hlater)]
        rfl
    · have hlast : lastFor (r :: rest) t = lastFor rest t := by simp [lastFor, hrt]
      rw [filter_sift_cons_of_neg false before rest (decide_eq_false hrt), ih, hlast]

/-- **For each target, the rule that counts is the only one left.** -/
theorem filter_effective (rules : List Rule) (t : Target) :
    ((effective rules).filter fun q => q.target = t) = (decisive rules t).toList := by
  rw [effective_eq_sift, decisive]
  cases ht : t.isClassLevel with
  | true => simp [filter_sift_of_classLevel ht]
  | false => simp [filter_sift_of_member ht]

/-- **The same rule counts** when the overruled ones are gone. -/
theorem decisive_effective (rules : List Rule) (t : Target) :
    decisive (effective rules) t = decisive rules t := by
  conv_lhs => rw [decisive, firstFor, ← List.head?_filter, lastFor, filter_effective]
  cases decisive rules t <;> simp

/-- **None of the rules that are left is overruled.** -/
theorem overruled_effective (rules : List Rule) : overruled (effective rules) = [] := by
  rw [overruled, List.map_eq_nil_iff, List.filter_eq_nil_iff]
  intro entry hentry hover
  obtain ⟨r, i⟩ := entry
  have hover : Overruled (effective rules) i r := of_decide_eq_true hover
  obtain ⟨hi, hr⟩ := List.getElem?_eq_some_iff.1 (List.mk_mem_zipIdx_iff_getElem?.1 hentry)
  have hsplit :
      effective rules = (effective rules).take i ++ r :: (effective rules).drop (i + 1) := by
    rw [← hr, List.getElem_cons_drop, List.take_append_drop]
  -- `r` and the rule that overrules it would both be left for the target of `r`
  have hlength : ((effective rules).filter fun q => q.target = r.target).length ≤ 1 := by
    rw [filter_effective]
    cases decisive rules r.target <;> simp
  have hrule : ∀ l : List Rule, (∃ q ∈ l, q.target = r.target) →
      0 < (l.filter fun q => q.target = r.target).length := by
    intro l hl
    obtain ⟨q, hq, hqr⟩ := hl
    exact List.length_pos_of_mem (List.mem_filter.2 ⟨hq, decide_eq_true hqr⟩)
  rw [hsplit, List.filter_append, List.filter_cons_of_pos (by simp), List.length_append,
    List.length_cons] at hlength
  rw [Overruled] at hover
  split at hover
  · have := hrule _ hover
    omega
  · have := hrule _ hover
    omega

/-- Of two rules for a class the first one is left, of two rules for a field the last one. -/
example :
    let whole : Rule := ⟨.classLevel "A", .everywhere, Edits.none⟩
    let field : Rule := ⟨.field "A" "f", .everywhere, Edits.none⟩
    let whole' : Rule := ⟨.classLevel "A", .ownClass, Edits.none⟩
    let field' : Rule := ⟨.field "A" "f", .ownClass, Edits.none⟩
    effective [whole, field, whole', field'] = [whole, field'] := by
  decide

end ClassAccess
