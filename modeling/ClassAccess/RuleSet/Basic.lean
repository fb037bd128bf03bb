import Std.Data.TreeMap
import ClassAccess.Rule.Basic

/-!
# Rule sets

Many rules, in the order they were loaded, with what it takes to find those about one class. Of
several rules for one class as a whole the first one counts.

## Main definitions

* `RuleSet` — rules, grouped by class.
* `RuleSet.ofRules` — the set of a list of rules.
* `RuleSet.rulesForClass`, `RuleSet.classRule?`, `RuleSet.classNames` — what the grouping is for.
* `RuleSet.text` — the rules in rule text, one to a line.

## Main results

* `RuleSet.ext` — a set is determined by its rules.

## Design

The grouping is computed once and kept. Two proof fields say that it is the grouping of the rules,
so that a rule set is no more than its list of rules. Rules are grouped under the class name that
they hold; a name that is asked for is brought into normal form first.
-/

set_option autoImplicit false

namespace ClassAccess

open Std (TreeMap)

/-! ## Grouping -/

/-- For each class that some rule names, the places of its rules in ascending order. -/
def groupByClass (rules : List Rule) : TreeMap String (List Nat) :=
  rules.zipIdx.foldr
    (fun entry groups =>
      groups.alter entry.1.target.className fun places => some (entry.2 :: places.getD []))
    ∅

/-- For each class with a rule for it as a whole, the place of the first one. -/
def firstClassRules (rules : List Rule) : TreeMap String Nat :=
  rules.zipIdx.foldr
    (fun entry firsts =>
      if entry.1.target.isClassLevel then firsts.insert entry.1.target.className entry.2
      else firsts)
    ∅

/-! ## Sets -/

/-- Rules in load order, grouped by class. -/
structure RuleSet where
  /-- The rules in load order. -/
  rules : Array Rule
  /-- The places of the rules of each class. -/
  byClass : TreeMap String (List Nat)
  /-- The place of the rule that counts for each class as a whole. -/
  classRules : TreeMap String Nat
  /-- The grouping is that of the rules. -/
  byClass_eq : byClass = groupByClass rules.toList
  /-- And so are the rules for classes as a whole. -/
  classRules_eq : classRules = firstClassRules rules.toList

namespace RuleSet

/-- The set of a list of rules. -/
def ofRules (rules : List Rule) : RuleSet :=
  ⟨rules.toArray, groupByClass rules, firstClassRules rules, by simp, by simp⟩

instance : Inhabited RuleSet := ⟨ofRules []⟩

/-- A set is determined by its rules. -/
@[ext]
theorem ext {a b : RuleSet} (h : a.rules = b.rules) : a = b := by
  obtain ⟨r, _, _, rfl, rfl⟩ := a
  obtain ⟨s, _, _, rfl, rfl⟩ := b
  cases show r = s from h
  rfl

/-- A set is the set of its rules. -/
theorem ofRules_toList (s : RuleSet) : ofRules s.rules.toList = s :=
  ext (by simp [ofRules])

/-- How many rules there are. -/
def size (s : RuleSet) : Nat := s.rules.size

/-- Whether there is no rule. -/
def isEmpty (s : RuleSet) : Bool := s.rules.isEmpty

/-- Whether two sets hold the same rules in the same order. -/
def sameRules (a b : RuleSet) : Bool := a.rules = b.rules

/-! ## Looking up -/

/-- The rule that counts for a class as a whole. -/
def classRule? (s : RuleSet) (className : String) : Option Rule :=
  s.classRules[dotted className]?.bind fun place => s.rules[place]?

/-- The rules about a class, in load order. -/
def rulesForClass (s : RuleSet) (className : String) : List Rule :=
  (s.byClass[dotted className]?.getD []).filterMap fun place => s.rules[place]?

/-- The names of all classes that some rule is about, in ascending order. -/
def classNames (s : RuleSet) : List String := s.byClass.keys

/-! ## Text -/

/-- The rules in rule text, one to a line. -/
def text (s : RuleSet) : String :=
  String.join (s.rules.toList.map fun r => r.text ++ "\n")

/-- The number of rules, of classes and of rules for classes as a whole. -/
def summary (s : RuleSet) : String :=
  s!"RuleSet({s.size} rules, {s.byClass.size} classes, {s.classRules.size} class rules)"

end RuleSet

end ClassAccess
