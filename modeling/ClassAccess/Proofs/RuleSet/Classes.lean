import Mathlib.Data.List.Dedup
import ClassAccess.RuleSet.Basic

/-!
# The classes of a rule set

The grouping of a rule set has one entry for each class that some rule is about.

## Main results

* `mem_groupByClass` — which classes have an entry.
* `RuleSet.size_byClass` — how many there are.
-/

set_option autoImplicit false

namespace ClassAccess

open Std (TreeMap)

/-- Grouping entries makes one group for each class that some rule is about. -/
theorem mem_groups {entries : List (Rule × Nat)} {n : String} :
    n ∈ entries.foldr (fun entry (groups : TreeMap String (List Nat)) =>
        groups.alter entry.1.target.className fun places => some (entry.2 :: places.getD [])) ∅ ↔
      n ∈ entries.map fun entry => entry.1.target.className := by
  induction entries with
  | nil => simp
  | cons entry entries ih =>
    rw [List.foldr_cons, TreeMap.mem_alter, List.map_cons, List.mem_cons, ← ih]
    by_cases h : entry.1.target.className = n
    · rw [if_pos (Std.compare_eq_iff_eq.2 h)]
      exact ⟨fun _ => .inl h.symm, fun _ => rfl⟩
    · rw [if_neg (mt Std.compare_eq_iff_eq.1 h)]
      exact ⟨.inr, fun hn => hn.resolve_left (Ne.symm h)⟩

/-- **A class is grouped** exactly if some rule is about it. -/
theorem mem_groupByClass {rules : List Rule} {n : String} :
    n ∈ groupByClass rules ↔ n ∈ rules.map fun r => r.target.className := by
  rw [groupByClass, mem_groups]
  conv_rhs => rw [← List.zipIdx_map_fst 0 rules, List.map_map]
  rfl

/-- A table with entries for the names of a list has as many entries as different names are in the
list. -/
theorem size_eq_length_dedup {α : Type} {table : TreeMap String α} {names : List String}
    (h : ∀ n, n ∈ table ↔ n ∈ names) : table.size = names.dedup.length := by
  have hperm : table.keys.Perm names.dedup := by
    refine (List.perm_ext_iff_of_nodup TreeMap.nodup_keys (List.nodup_dedup _)).2 fun n => ?_
    rw [TreeMap.mem_keys, h, List.mem_dedup]
  rw [← TreeMap.length_keys, hperm.length_eq]

/-- **The number of groups** is that of the different class names. -/
theorem size_groupByClass (rules : List Rule) :
    (groupByClass rules).size = (rules.map fun r => r.target.className).dedup.length :=
  size_eq_length_dedup fun _ => mem_groupByClass

/-- **The number of classes** of a set is that of the different class names of its rules. -/
theorem RuleSet.size_byClass (s : RuleSet) :
    s.byClass.size = (s.rules.toList.map fun r => r.target.className).dedup.length := by
  rw [s.byClass_eq, size_groupByClass]

end ClassAccess
