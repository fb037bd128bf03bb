import Mathlib.Data.List.Basic
import ClassAccess.Proofs.Rule.Request
import ClassAccess.RuleSet.Index

/-!
# Looking up rules is scanning them

What the grouping of a rule set and the index of a class give is what a scan of the plain list of
rules gives. For a class as a whole the first rule counts, for its members the last one, and a rule
for all members is put under the rule for one.

## Main definitions

* `firstFor`, `lastFor` — the first and the last rule of a list for a target.
* `decisive` — the one of them that counts.
* `Request.forClass`, `Request.forField`, `Request.forMethod` — what the rules of a list ask for.

## Main results

* `firstFor_filter`, `lastFor_filter` — scanning the rules for some kind of targets only.
* `RuleSet.rulesForClass_eq`, `RuleSet.classRule?_eq` — the grouping of a rule set.
* `RuleIndex.getElem?_fields`, `RuleIndex.getElem?_methods` — the index of a class.
* `RuleIndex.requests_of_isEmpty` — what an empty index means.
-/

set_option autoImplicit false

namespace ClassAccess

open Std (TreeMap)

/-! ## Scanning -/

/-- The first rule of a list for a target. -/
def firstFor (rules : List Rule) (t : Target) : Option Rule :=
  rules.find? fun r => r.target = t

/-- The last rule of a list for a target. -/
def lastFor (rules : List Rule) (t : Target) : Option Rule :=
  (rules.filter fun r => r.target = t).getLast?

/-- The rule of a list that counts for a target: the first one for a class as a whole, the last one
for a member. -/
def decisive (rules : List Rule) (t : Target) : Option Rule :=
  if t.isClassLevel then firstFor rules t else lastFor rules t

/-- The last rule for a target is for that target. -/
theorem target_of_lastFor {rules : List Rule} {t : Target} {r : Rule}
    (h : lastFor rules t = some r) : r.target = t :=
  of_decide_eq_true (List.mem_filter.1 (List.mem_of_getLast? h)).2

/-- The first rule for a target is a rule of the list. -/
theorem mem_of_firstFor {rules : List Rule} {t : Target} {r : Rule}
    (h : firstFor rules t = some r) : r ∈ rules :=
  List.mem_of_find?_eq_some h

/-- The last rule for a target is a rule of the list. -/
theorem mem_of_lastFor {rules : List Rule} {t : Target} {r : Rule} (h : lastFor rules t = some r) :
    r ∈ rules :=
  (List.mem_filter.1 (List.mem_of_getLast? h)).1

/-- Among the rules for targets of some kind, the rules for one target are all there or not at
all. -/
theorem filter_filter_target (rules : List Rule) (p : Target → Bool) (t : Target) :
    ((rules.filter fun r => p r.target).filter fun r => r.target = t) =
      if p t then rules.filter fun r => r.target = t else [] := by
  rw [List.filter_filter]
  cases hp : p t with
  | true =>
    apply List.filter_congr
    intro r _
    by_cases ht : r.target = t
    · rw [ht, hp, Bool.and_true]
    · rw [decide_eq_false ht, Bool.false_and]
  | false =>
    rw [if_neg Bool.false_ne_true, List.filter_eq_nil_iff]
    intro r _ hr
    rw [Bool.and_eq_true, decide_eq_true_eq] at hr
    obtain ⟨rfl, hr⟩ := hr
    exact Bool.false_ne_true (hp.symm.trans hr)

/-- The first rule for a target among the rules for targets of some kind. -/
theorem firstFor_filter (rules : List Rule) (p : Target → Bool) (t : Target) :
    firstFor (rules.filter fun r => p r.target) t = if p t then firstFor rules t else none := by
  rw [firstFor, ← List.head?_filter, filter_filter_target, firstFor, ← List.head?_filter]
  cases p t <;> rfl

/-- The last rule for a target among the rules for targets of some kind. -/
theorem lastFor_filter (rules : List Rule) (p : Target → Bool) (t : Target) :
    lastFor (rules.filter fun r => p r.target) t = if p t then lastFor rules t else none := by
  rw [lastFor, filter_filter_target, lastFor]
  cases p t <;> rfl

namespace Request

/-- What the rules of a list ask for a class as a whole: what the first one does. -/
def forClass (rules : List Rule) (className : String) : Option Request :=
  (firstFor rules (.classLevel (dotted className))).map Rule.request

/-- What the rules of a list ask for a member: what the last one for it does, over what the last one
for all members does. -/
def forMember (rules : List Rule) (wildcard exact : Target) : Option Request :=
  both ((lastFor rules wildcard).map Rule.request) ((lastFor rules exact).map Rule.request)

/-- What the rules of a list ask for a field of a class. -/
def forField (rules : List Rule) (className name : String) : Option Request :=
  forMember rules (.field (dotted className) Target.anyField) (.field (dotted className) name)

/-- What the rules of a list ask for a method of a class. -/
def forMethod (rules : List Rule) (className name descriptor : String) : Option Request :=
  forMember rules (.method (dotted className) Target.anyMethod)
    (.method (dotted className) (name ++ descriptor))

end Request

/-! ## Class names -/

/-- A name with dots has no slash left to exchange. -/
@[simp]
theorem dotted_dotted (n : String) : dotted (dotted n) = dotted n := by
  unfold dotted
  rw [String.toList_ofList, List.map_map]
  congr 1
  apply List.map_congr_left
  intro c _
  show (if (if c = '/' then '.' else c) = '/' then '.' else if c = '/' then '.' else c) = _
  by_cases hc : c = '/'
  · rw [if_pos hc, if_neg (by decide)]
  · rw [if_neg hc, if_neg hc]

/-! ## Parts of targets -/

namespace Target

/-- The name of the field that a target is. -/
def fieldName? : Target → Option String
  | field _ name => some name
  | _ => none

/-- The signature of the method that a target is. -/
def signature? : Target → Option String
  | method _ signature => some signature
  | _ => none

/-- A target is a class as a whole if it is class-level and has the name of that class. -/
theorem eq_classLevel_iff {t : Target} {c : String} :
    t = .classLevel c ↔ t.isClassLevel = true ∧ t.className = c := by
  cases t <;> simp [isClassLevel, kind, className]

/-- A target is a field if it has the name of that field and the name of its class. -/
theorem eq_field_iff {t : Target} {c name : String} :
    t = .field c name ↔ t.fieldName? = some name ∧ t.className = c := by
  cases t <;> simp [fieldName?, className, and_comm]

/-- A target is a method if it has the signature of that method and the name of its class. -/
theorem eq_method_iff {t : Target} {c signature : String} :
    t = .method c signature ↔ t.signature? = some signature ∧ t.className = c := by
  cases t <;> simp [signature?, className, and_comm]

end Target

/-! ## Grouping -/

section Grouping

variable {entries : List (Rule × Nat)}

/-- Grouping places puts them under the class names of their rules, in the same order. -/
theorem getD_groups (n : String) :
    (entries.foldr (fun entry (groups : TreeMap String (List Nat)) =>
        groups.alter entry.1.target.className fun places => some (entry.2 :: places.getD []))
      ∅)[n]?.getD [] = (entries.filter fun entry => entry.1.target.className = n).map (·.2) := by
  induction entries with
  | nil => rfl
  | cons entry entries ih =>
    rw [List.foldr_cons, Std.TreeMap.getElem?_alter, List.filter_cons]
    by_cases h : entry.1.target.className = n
    · rw [if_pos (Std.compare_eq_iff_eq.2 h), decide_eq_true h, if_pos rfl, List.map_cons, ← ih, h]
      rfl
    · rw [if_neg (mt Std.compare_eq_iff_eq.1 h), decide_eq_false h, if_neg Bool.false_ne_true, ih]

/-- The place that is kept for a class is that of its first class-level rule. -/
theorem getElem?_firsts (n : String) :
    (entries.foldr (fun entry (firsts : TreeMap String Nat) =>
        if entry.1.target.isClassLevel then firsts.insert entry.1.target.className entry.2
        else firsts) ∅)[n]? =
      (entries.find? fun entry => entry.1.target = .classLevel n).map (·.2) := by
  induction entries with
  | nil => rfl
  | cons entry entries ih =>
    rw [List.foldr_cons, List.find?_cons]
    by_cases hk : entry.1.target.isClassLevel = true
    · rw [if_pos hk, Std.TreeMap.getElem?_insert]
      by_cases h : entry.1.target.className = n
      · rw [if_pos (Std.compare_eq_iff_eq.2 h), decide_eq_true (Target.eq_classLevel_iff.2 ⟨hk, h⟩)]
        rfl
      · rw [if_neg (mt Std.compare_eq_iff_eq.1 h),
          decide_eq_false fun ht => h (Target.eq_classLevel_iff.1 ht).2, ih]
    · rw [if_neg hk, decide_eq_false fun ht => hk (Target.eq_classLevel_iff.1 ht).1, ih]

end Grouping

namespace RuleSet

variable (s : RuleSet)

/-- The rule at a place that was counted is the one that it was counted for. -/
theorem getElem?_of_mem_zipIdx {entry : Rule × Nat} (h : entry ∈ s.rules.toList.zipIdx) :
    s.rules[entry.2]? = some entry.1 := by
  have := List.mem_zipIdx_iff_getElem?.1 h
  rwa [Array.getElem?_toList] at this

/-- The counted rules are the rules. -/
theorem map_fst_zipIdx : s.rules.toList.zipIdx.map (·.1) = s.rules.toList :=
  List.zipIdx_map_fst ..

/-- **The rules about a class** are those whose targets are or belong to that class. -/
theorem rulesForClass_eq (n : String) :
    s.rulesForClass n = s.rules.toList.filter fun r => r.target.className = dotted n := by
  have hplace :
      (s.rules.toList.zipIdx.filter fun entry => entry.1.target.className = dotted n).filterMap
          ((fun place => s.rules[place]?) ∘ (·.2)) =
        (s.rules.toList.zipIdx.filter fun entry => entry.1.target.className = dotted n).filterMap
          (some ∘ (·.1)) :=
    List.filterMap_congr fun entry he => s.getElem?_of_mem_zipIdx (List.mem_filter.1 he).1
  rw [rulesForClass, s.byClass_eq, groupByClass, getD_groups, List.filterMap_map, hplace,
    List.filterMap_eq_map]
  conv_rhs => rw [← s.map_fst_zipIdx, List.filter_map]
  rfl

/-- **The rule for a class as a whole** is the first one. -/
theorem classRule?_eq (n : String) :
    s.classRule? n = firstFor s.rules.toList (.classLevel (dotted n)) := by
  rw [classRule?, s.classRules_eq, firstClassRules, getElem?_firsts, firstFor]
  conv_rhs => rw [← s.map_fst_zipIdx, List.find?_map]
  show _ = (s.rules.toList.zipIdx.find? fun entry => entry.1.target = .classLevel (dotted n)).map _
  cases hfind : s.rules.toList.zipIdx.find?
      fun entry => entry.1.target = .classLevel (dotted n) with
  | none => rfl
  | some entry => exact s.getElem?_of_mem_zipIdx (List.mem_of_find?_eq_some hfind)

end RuleSet

/-! ## Indexing -/

namespace RuleIndex

/-- In a row of insertions the last one for a key counts. -/
theorem getElem?_foldl_insert (key : Target → Option String)
    {step : TreeMap String Rule → Rule → TreeMap String Rule}
    (hstep : ∀ found r, step found r = (key r.target).elim found fun k => found.insert k r)
    (rules : List Rule) (found : TreeMap String Rule) (k : String) :
    (rules.foldl step found)[k]? =
      ((rules.filter fun r => key r.target = some k).getLast?).or found[k]? := by
  induction rules generalizing found with
  | nil => rfl
  | cons r rules ih =>
    rw [List.foldl_cons, ih, List.filter_cons, hstep]
    cases hkey : key r.target with
    | none => rw [decide_eq_false nofun, if_neg Bool.false_ne_true, Option.elim_none]
    | some k' =>
      rw [Option.elim_some, Std.TreeMap.getElem?_insert]
      by_cases h : k' = k
      · rw [if_pos (Std.compare_eq_iff_eq.2 h), decide_eq_true (congrArg some h), if_pos rfl,
          List.getLast?_cons, Option.some_or, Option.or_some]
      · rw [if_neg (mt Std.compare_eq_iff_eq.1 h), decide_eq_false fun he => h (Option.some.inj he),
          if_neg Bool.false_ne_true]

/-- Of the rules about a class, the last one with a key is the last one of all rules with the target
that has this key. -/
theorem getLast?_filter_key (s : RuleSet) {key : Target → Option String} {t : Target} {n k : String}
    (ht : ∀ u, u = t ↔ key u = some k ∧ u.className = dotted n) :
    ((s.rulesForClass n).filter fun r => key r.target = some k).getLast? =
      lastFor s.rules.toList t := by
  rw [s.rulesForClass_eq, List.filter_filter, lastFor]
  congr 1
  apply List.filter_congr
  intro r _
  rw [← Bool.decide_and, decide_eq_decide]
  exact (ht r.target).symm

/-- The index holds the last rule for each field of its class. -/
theorem getElem?_fields (s : RuleSet) (n name : String) :
    (ofSet s n).fields[name]? = lastFor s.rules.toList (.field (dotted n) name) := by
  show (lastByField (s.rulesForClass (dotted n)))[name]? = _
  rw [lastByField, getElem?_foldl_insert Target.fieldName?, Std.TreeMap.getElem?_emptyc,
    Option.or_none, getLast?_filter_key s fun _ => Target.eq_field_iff, dotted_dotted]
  intro found r
  cases r.target <;> rfl

/-- The index holds the last rule for each method of its class. -/
theorem getElem?_methods (s : RuleSet) (n signature : String) :
    (ofSet s n).methods[signature]? = lastFor s.rules.toList (.method (dotted n) signature) := by
  show (lastByMethod (s.rulesForClass (dotted n)))[signature]? = _
  rw [lastByMethod, getElem?_foldl_insert Target.signature?, Std.TreeMap.getElem?_emptyc,
    Option.or_none, getLast?_filter_key s fun _ => Target.eq_method_iff, dotted_dotted]
  intro found r
  cases r.target <;> rfl

/-- The index knows the rule for its class as a whole. -/
theorem classRule?_ofSet (s : RuleSet) (n : String) :
    (ofSet s n).classRule? = firstFor s.rules.toList (.classLevel (dotted n)) := by
  show s.classRule? (dotted n) = _
  rw [s.classRule?_eq, dotted_dotted]

/-- **An empty index** means that no rule asks for anything about the class or its members. -/
theorem requests_of_isEmpty {s : RuleSet} {n : String} (h : (ofSet s n).isEmpty = true) :
    Request.forClass s.rules.toList n = none ∧
      (∀ name, Request.forField s.rules.toList n name = none) ∧
      ∀ name descriptor, Request.forMethod s.rules.toList n name descriptor = none := by
  rw [isEmpty, Bool.and_eq_true, Bool.and_eq_true, Option.isNone_iff_eq_none] at h
  obtain ⟨⟨hclass, hfields⟩, hmethods⟩ := h
  refine ⟨?_, fun name => ?_, fun name descriptor => ?_⟩
  · rw [Request.forClass, ← classRule?_ofSet, hclass, Option.map_none]
  · rw [Request.forField, Request.forMember, ← getElem?_fields, ← getElem?_fields,
      Std.TreeMap.getElem?_of_isEmpty hfields, Std.TreeMap.getElem?_of_isEmpty hfields]
    rfl
  · rw [Request.forMethod, Request.forMember, ← getElem?_methods, ← getElem?_methods,
      Std.TreeMap.getElem?_of_isEmpty hmethods, Std.TreeMap.getElem?_of_isEmpty hmethods]
    rfl

end RuleIndex

end ClassAccess
