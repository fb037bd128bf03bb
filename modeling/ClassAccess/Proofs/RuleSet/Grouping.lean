import ClassAccess.Proofs.RuleSet.Classes
import ClassAccess.Proofs.RuleSet.Lookup

/-!
# The grouping of a rule set

What a rule set keeps beside its rules: for each class that some rule is about, the places of these
rules, and for each class with a rule for it as a whole, the place of the first such rule.
Everything that is looked up in a rule set, and the numbers in its summary, are read off these two
tables.

## Main definitions

* `RuleSet.IsGrouping` — what the two tables of a rule set hold.

## Main results

* `RuleSet.isGrouping_ofRules` — the tables of every list of rules hold that.
* `RuleSet.classNames_ofRules` — the names of classes are in order, each of them once.
* `RuleSet.grouping_decides_lookups` — the tables, and all that is read off them.

## Implementation notes

The tables are built from the last rule to the first one, so that each step puts the place of a rule
in front of those of later rules, and the place of a rule for a class as a whole over that of a
later one. The lemmas about such a step are in `Lookup` and `Classes`; here, only what they give for
all steps together is used.
-/

set_option autoImplicit false

namespace ClassAccess

open Std (TreeMap)

/-! ## Entries -/

section Entries

variable {rules : List Rule}

/-- A class has a group if some rule is about it, and the group holds the places of these rules, in
order. -/
theorem getElem?_groupByClass_eq_some_iff {n : String} {places : List Nat} :
    (groupByClass rules)[n]? = some places ↔ places ≠ [] ∧
      places = (rules.zipIdx.filter fun entry => entry.1.target.className = n).map (·.2) := by
  have hplaces : (groupByClass rules)[n]?.getD [] =
      (rules.zipIdx.filter fun entry => entry.1.target.className = n).map (·.2) := getD_groups n
  have hmem : n ∈ groupByClass rules ↔
      (rules.zipIdx.filter fun entry => entry.1.target.className = n) ≠ [] := by
    rw [groupByClass, mem_groups, List.mem_map, Ne, List.filter_eq_nil_iff]
    simp
  by_cases hn : n ∈ groupByClass rules
  · obtain ⟨found, hfound⟩ := Option.isSome_iff_exists.1 (TreeMap.mem_iff_isSome_getElem?.1 hn)
    rw [hfound, Option.getD_some] at hplaces
    have hne : found ≠ [] := by
      rw [hplaces, Ne, List.map_eq_nil_iff]
      exact hmem.1 hn
    rw [hfound, ← hplaces, Option.some.injEq]
    constructor
    · intro h
      subst h
      exact ⟨hne, rfl⟩
    · intro h
      exact h.2.symm
  · have hnil : (rules.zipIdx.filter fun entry => entry.1.target.className = n) = [] :=
      not_not.1 (mt hmem.2 hn)
    rw [TreeMap.getElem?_eq_none hn, hnil]
    simp

/-- A place is in the group of a class exactly if the rule there is about that class. -/
theorem exists_mem_group_iff {n : String} {i : Nat} :
    (∃ places, (groupByClass rules)[n]? = some places ∧ i ∈ places) ↔
      ∃ r, rules[i]? = some r ∧ r.target.className = n := by
  simp only [getElem?_groupByClass_eq_some_iff]
  constructor
  · intro h
    obtain ⟨places, ⟨-, rfl⟩, hi⟩ := h
    obtain ⟨⟨r, j⟩, hr, rfl⟩ := List.mem_map.1 hi
    obtain ⟨hr, hn⟩ := List.mem_filter.1 hr
    exact ⟨r, List.mk_mem_zipIdx_iff_getElem?.1 hr, of_decide_eq_true hn⟩
  · intro h
    obtain ⟨r, hr, hn⟩ := h
    have hmem : i ∈ (rules.zipIdx.filter fun entry => entry.1.target.className = n).map (·.2) :=
      List.mem_map.2 ⟨(r, i), List.mem_filter.2
        ⟨List.mk_mem_zipIdx_iff_getElem?.2 hr, decide_eq_true hn⟩, rfl⟩
    exact ⟨_, ⟨List.ne_nil_of_mem hmem, rfl⟩, hmem⟩

/-- The places in a group ascend. -/
theorem pairwise_group {n : String} {places : List Nat}
    (h : (groupByClass rules)[n]? = some places) : places.Pairwise (· < ·) := by
  obtain ⟨-, rfl⟩ := getElem?_groupByClass_eq_some_iff.1 h
  have hsub : ((rules.zipIdx.filter fun entry => entry.1.target.className = n).map (·.2)).Sublist
      (List.range' 0 rules.length) := by
    rw [← List.zipIdx_map_snd]
    exact List.filter_sublist.map _
  exact List.Pairwise.sublist hsub List.pairwise_lt_range'

/-- **Every place is in exactly one group, and there once.** -/
theorem perm_flatMap_groups :
    ((groupByClass rules).toList.flatMap (·.2)).Perm (List.range rules.length) := by
  refine (List.perm_ext_iff_of_nodup ?_ List.nodup_range).2 ?_
  · rw [List.nodup_flatMap]
    constructor
    · intro entry hentry
      have hgroup := TreeMap.mem_toList_iff_getElem?_eq_some.1 hentry
      exact (pairwise_group hgroup).imp Nat.ne_of_lt
    · refine List.Pairwise.imp_of_mem ?_ TreeMap.distinct_keys_toList
      intro a b ha hb hne i hia hib
      -- the rule at a place that is in two groups is about both classes
      obtain ⟨r, hr, hra⟩ := exists_mem_group_iff.1
        ⟨a.2, TreeMap.mem_toList_iff_getElem?_eq_some.1 ha, hia⟩
      obtain ⟨q, hq, hqb⟩ := exists_mem_group_iff.1
        ⟨b.2, TreeMap.mem_toList_iff_getElem?_eq_some.1 hb, hib⟩
      rw [hr, Option.some.injEq] at hq
      exact hne (Std.compare_eq_iff_eq.2 (by rw [← hra, ← hqb, hq]))
  · intro i
    rw [List.mem_flatMap, List.mem_range]
    constructor
    · intro h
      obtain ⟨entry, hentry, hi⟩ := h
      obtain ⟨r, hr, -⟩ := exists_mem_group_iff.1
        ⟨entry.2, TreeMap.mem_toList_iff_getElem?_eq_some.1 hentry, hi⟩
      exact (List.getElem?_eq_some_iff.1 hr).1
    · intro h
      obtain ⟨places, hgroup, hi⟩ :=
        exists_mem_group_iff.2 ⟨rules[i], List.getElem?_eq_getElem h, rfl⟩
      exact ⟨(_, places), TreeMap.mem_toList_iff_getElem?_eq_some.2 hgroup, hi⟩

/-- The place that is kept for a class is the first one with a rule for the class as a whole. -/
theorem getElem?_firstClassRules_eq_some_iff {n : String} {i : Nat} :
    (firstClassRules rules)[n]? = some i ↔
      (∃ r, rules[i]? = some r ∧ r.target = .classLevel n) ∧
        ∀ j < i, ∀ r, rules[j]? = some r → r.target ≠ .classLevel n := by
  have hfirst : (firstClassRules rules)[n]? =
      rules.findIdx? fun r => r.target = .classLevel n := by
    rw [List.findIdx?_eq_fst_find?_zipIdx]
    exact getElem?_firsts n
  rw [hfirst, List.findIdx?_eq_some_iff_getElem]
  constructor
  · intro h
    obtain ⟨hi, htarget, hfirst⟩ := h
    refine ⟨⟨rules[i], List.getElem?_eq_getElem hi, of_decide_eq_true htarget⟩, ?_⟩
    intro j hj r hr htarget'
    obtain ⟨hlt, rfl⟩ := List.getElem?_eq_some_iff.1 hr
    exact hfirst j hj (decide_eq_true htarget')
  · intro h
    obtain ⟨⟨r, hr, htarget⟩, hfirst⟩ := h
    obtain ⟨hi, rfl⟩ := List.getElem?_eq_some_iff.1 hr
    refine ⟨hi, decide_eq_true htarget, ?_⟩
    intro j hj htarget'
    exact hfirst j hj _ (List.getElem?_eq_getElem (Nat.lt_trans hj hi)) (of_decide_eq_true htarget')

/-- The names of the classes with a rule for them as a whole, each of them once. -/
def wholeClasses (rules : List Rule) : List String :=
  ((rules.filter fun r => r.target.isClassLevel).map fun r => r.target.className).dedup

/-- **A class has a first rule for it as a whole** exactly if it has such a rule. -/
theorem mem_firstClassRules {n : String} : n ∈ firstClassRules rules ↔ n ∈ wholeClasses rules := by
  have hfound : (firstClassRules rules)[n]? =
      (rules.zipIdx.find? fun entry => entry.1.target = .classLevel n).map (·.2) :=
    getElem?_firsts n
  rw [TreeMap.mem_iff_isSome_getElem?, hfound, Option.isSome_map, List.find?_isSome,
    wholeClasses, List.mem_dedup, List.mem_map]
  constructor
  · intro h
    obtain ⟨⟨r, i⟩, hr, htarget⟩ := h
    obtain ⟨hlevel, hname⟩ := Target.eq_classLevel_iff.1 (of_decide_eq_true htarget)
    exact ⟨r, List.mem_filter.2 ⟨List.fst_mem_of_mem_zipIdx hr, hlevel⟩, hname⟩
  · intro h
    obtain ⟨r, hr, hname⟩ := h
    obtain ⟨hr, hlevel⟩ := List.mem_filter.1 hr
    obtain ⟨i, hi, rfl⟩ := List.getElem_of_mem hr
    refine ⟨(rules[i], i), List.mk_mem_zipIdx_iff_getElem?.2 (List.getElem?_eq_getElem hi), ?_⟩
    exact decide_eq_true (Target.eq_classLevel_iff.2 ⟨hlevel, hname⟩)

/-- The number of classes with a rule for them as a whole. -/
theorem size_firstClassRules (rules : List Rule) :
    (firstClassRules rules).size = (wholeClasses rules).length :=
  size_eq_length_dedup fun _ => mem_firstClassRules.trans List.mem_dedup

end Entries

namespace RuleSet

/-! ## The tables -/

/-- What the tables `byClass` and `classRules` of a rule set hold. -/
structure IsGrouping (rules : List Rule) (byClass : TreeMap String (List Nat))
    (classRules : TreeMap String Nat) : Prop where
  /-- Every place of a rule is in one group, and there once; there are no other places. -/
  eachOnce : (byClass.toList.flatMap (·.2)).Perm (List.range rules.length)
  /-- A place is in the group of the class that the rule there is about. -/
  underItsClass : ∀ (n : String) (places : List Nat), byClass[n]? = some places →
    ∀ i ∈ places, ∃ r : Rule, rules[i]? = some r ∧ r.target.className = n
  /-- No group is empty. -/
  nonempty : ∀ (n : String) (places : List Nat), byClass[n]? = some places → places ≠ []
  /-- The places in a group ascend. -/
  ascending : ∀ (n : String) (places : List Nat), byClass[n]? = some places →
    places.Pairwise (· < ·)
  /-- For a class as a whole the first place with such a rule is kept, if there is one. -/
  first : ∀ (n : String) (i : Nat), classRules[n]? = some i ↔
    (∃ r : Rule, rules[i]? = some r ∧ r.target = .classLevel n) ∧
      ∀ j < i, ∀ r : Rule, rules[j]? = some r → r.target ≠ .classLevel n

/-- **The tables of every list of rules** hold the places of its rules. -/
theorem isGrouping_ofRules (rules : List Rule) :
    IsGrouping rules (ofRules rules).byClass (ofRules rules).classRules where
  eachOnce := perm_flatMap_groups
  underItsClass _ places h _ hi := exists_mem_group_iff.1 ⟨places, h, hi⟩
  nonempty _ _ h := (getElem?_groupByClass_eq_some_iff.1 h).1
  ascending _ _ h := pairwise_group h
  first _ _ := getElem?_firstClassRules_eq_some_iff

/-- The rules of a set that is made of a list. -/
theorem toList_rules_ofRules (rules : List Rule) : (ofRules rules).rules.toList = rules := rfl

/-- **The names of the classes** ascend, and they are those of all rules. -/
theorem classNames_ofRules (rules : List Rule) :
    (ofRules rules).classNames.Pairwise (· < ·) ∧
      ∀ n, n ∈ (ofRules rules).classNames ↔ ∃ r ∈ rules, r.target.className = n := by
  constructor
  · refine List.Pairwise.imp ?_ (TreeMap.ordered_keys (t := (ofRules rules).byClass))
    intro a b hab
    exact compareOfLessAndEq_eq_lt.1 hab
  · intro n
    have hmem : n ∈ (ofRules rules).classNames ↔ n ∈ groupByClass rules := TreeMap.mem_keys
    rw [hmem, mem_groupByClass, List.mem_map]

/-- The rule for a class as a whole is the first such rule among the rules about the class. -/
theorem classRule?_eq_find? (rules : List Rule) (n : String) :
    (ofRules rules).classRule? n =
      ((ofRules rules).rulesForClass n).find? fun r => r.target.isClassLevel := by
  rw [classRule?_eq, rulesForClass_eq, List.find?_filter, firstFor]
  congr 1
  funext r
  rw [decide_eq_decide, Target.eq_classLevel_iff, decide_eq_true_eq]
  exact and_comm

/-- **Two tables decide all that is looked up in a rule set.** They hold each place of a rule once,
in order and under the class that the rule is about, and the first place with a rule for a class as
a whole. So the rules about a class are those rules, in order, whose class has that name; the first
one among them that is for the class as a whole is the rule for it; the names of the classes ascend;
and the summary tells how many rules, classes and classes with a rule for them as a whole there
are. -/
theorem grouping_decides_lookups (rules : List Rule) :
    let s := ofRules rules
    let whole := wholeClasses rules
    IsGrouping rules s.byClass s.classRules ∧
      (∀ n, s.rulesForClass n = rules.filter fun r => r.target.className = dotted n) ∧
      (∀ n, s.classRule? n = (s.rulesForClass n).find? fun r => r.target.isClassLevel) ∧
      s.classNames.Pairwise (· < ·) ∧
      (∀ n, n ∈ s.classNames ↔ ∃ r ∈ rules, r.target.className = n) ∧
      s.summary =
        s!"RuleSet({rules.length} rules, {s.classNames.length} classes, {whole.length} class rules)"
    := by
  intro s whole
  obtain ⟨hsorted, hnames⟩ := classNames_ofRules rules
  refine ⟨isGrouping_ofRules rules, fun n => ?_, classRule?_eq_find? rules, hsorted, hnames, ?_⟩
  · rw [rulesForClass_eq, toList_rules_ofRules]
  · have hrules : s.size = rules.length := List.size_toArray
    have hclasses : s.classNames.length = s.byClass.size := TreeMap.length_keys
    have hwhole : s.classRules.size = whole.length := size_firstClassRules rules
    rw [summary, hrules, hclasses, hwhole]

end RuleSet

end ClassAccess
