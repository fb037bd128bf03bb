import Mathlib.Data.Finset.Card
import ClassAccess.Proofs.Rule.CanonicalText
import ClassAccess.Proofs.RuleSet.Classes

/-!
# Normal forms of rules

Not every target is made in normal form: a class name may be given with slashes, and a signature
with a star for its name may have any descriptor. Bringing the targets of a rule set into normal
form can only bring classes together, never tell them apart.

## Main definitions

* `Target.normal`, `Rule.normal`, `RuleSet.normal` — targets, rules and rule sets in normal form.
* `RuleSet.NamesApart` — whether no two class names of a set are ways to write one name.

## Main results

* `Target.Readable.normal_eq` — targets that rule text can name are in normal form.
* `RuleSet.normal_eq_iff` — which sets are.
* `RuleSet.size_byClass_normal_iff` — when the normal form of a set is about as many classes.
-/

set_option autoImplicit false

namespace ClassAccess

/-! ## Targets -/

namespace Target

/-- The target in normal form. -/
def normal : Target → Target
  | classLevel className => forClass className
  | field className name => forField className name
  | method className signature => forMethod className signature

/-- The class of a target in normal form has dots between its parts. -/
theorem className_normal (t : Target) : t.normal.className = dotted t.className := by
  cases t <;> rfl

/-- **A target that rule text can name** is in normal form. -/
theorem Readable.normal_eq {t : Target} (h : t.Readable) : t.normal = t := by
  cases t with
  | classLevel className => exact congrArg classLevel (dotted_of_not_mem h.noSlash)
  | field className name => exact congrArg (field · name) (dotted_of_not_mem h.1.noSlash)
  | method className signature =>
    obtain ⟨hclass, -, -, hstar⟩ := h
    rw [normal, forMethod, dotted_of_not_mem hclass.noSlash]
    split_ifs with hprefix
    · rw [hstar (List.isPrefixOf_iff_prefix.1 hprefix)]
    · rfl

end Target

/-! ## Rules and rule sets -/

/-- The rule with its target in normal form. -/
def Rule.normal (r : Rule) : Rule := { r with target := r.target.normal }

/-- A rule is in normal form if its target is. -/
theorem Rule.normal_eq_iff {r : Rule} : r.normal = r ↔ r.target.normal = r.target := by
  obtain ⟨target, level, edits⟩ := r
  simp [normal]

/-- A list has as many different images as members exactly if different members have different
images. -/
theorem length_dedup_map_iff {α β : Type} [DecidableEq α] [DecidableEq β] {as : List α}
    {f : α → β} :
    (as.map f).dedup.length = as.dedup.length ↔ ∀ a ∈ as, ∀ b ∈ as, f a = f b → a = b := by
  have himage : (as.map f).toFinset = as.toFinset.image f := by
    ext b
    simp
  rw [← List.card_toFinset, ← List.card_toFinset, himage, Finset.card_image_iff]
  simp [Set.InjOn]

namespace RuleSet

/-- The set of the rules in normal form. -/
def normal (s : RuleSet) : RuleSet := ofRules (s.rules.toList.map Rule.normal)

/-- No two class names in a set are different ways to write one name. -/
def NamesApart (s : RuleSet) : Prop :=
  ∀ a ∈ s.rules.toList, ∀ b ∈ s.rules.toList,
    dotted a.target.className = dotted b.target.className → a.target.className = b.target.className

variable {s : RuleSet}

/-- The rules of a set in normal form. -/
@[simp]
theorem rules_normal (s : RuleSet) : s.normal.rules.toList = s.rules.toList.map Rule.normal :=
  List.toList_toArray

/-- **A set is in normal form** if the targets of its rules are. -/
theorem normal_eq_iff : s.normal = s ↔ ∀ r ∈ s.rules.toList, r.target.normal = r.target := by
  have hlist : s.normal = s ↔ s.rules.toList.map Rule.normal = s.rules.toList.map id := by
    rw [List.map_id, ← rules_normal]
    exact ⟨fun h => by rw [h], fun h => ext (Array.toList_inj.1 h)⟩
  rw [hlist, List.map_inj_left]
  exact forall₂_congr fun r _ => Rule.normal_eq_iff

/-- The class names of a set in normal form are apart. -/
theorem namesApart_of_normal (h : ∀ r ∈ s.rules.toList, r.target.normal = r.target) :
    s.NamesApart := by
  have hdotted : ∀ r ∈ s.rules.toList, dotted r.target.className = r.target.className := by
    intro r hr
    rw [← Target.className_normal, h r hr]
  intro a ha b hb hab
  rw [← hdotted a ha, ← hdotted b hb, hab]

/-- **The normal form of a set is about as many classes** exactly if the class names of the set are
apart. -/
theorem size_byClass_normal_iff : s.normal.byClass.size = s.byClass.size ↔ s.NamesApart := by
  have hnames : (s.rules.toList.map Rule.normal).map (fun r => r.target.className) =
      (s.rules.toList.map fun r => r.target.className).map dotted := by
    rw [List.map_map, List.map_map]
    exact List.map_congr_left fun r _ => r.target.className_normal
  rw [size_byClass, size_byClass, rules_normal, hnames, length_dedup_map_iff]
  simp only [List.forall_mem_map, NamesApart]

end RuleSet

end ClassAccess
