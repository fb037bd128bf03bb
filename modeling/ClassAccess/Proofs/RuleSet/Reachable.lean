import ClassAccess.Proofs.Rule.NormalForm
import ClassAccess.Proofs.RuleSet.Grouping

/-!
# Rules that are found under their class

Rules are grouped under the class names that they hold, and a name that is asked for has its slashes
exchanged for dots first. So a rule is found under the name of its class if that name has no slash,
and under no name at all if it has one. No rule that is read from text has such a class, and no
target that was brought in normal form; a target that is put together by hand may have one.

## Main results

* `dotted_eq_iff` — the names that are asked for as they are.
* `RuleSet.mem_rulesForClass_iff` — which rules are found under a name.
* `RuleSet.rulesForClass_ne_nil_iff` — under which names there are rules.
* `RuleSet.found_under_class` — which rules are found under the names of their classes.
* `RuleSet.not_found_under_class` — not all are.
-/

set_option autoImplicit false

namespace ClassAccess

/-! ## Names of classes -/

/-- **A name is asked for as it is** if it has no slash. -/
theorem dotted_eq_iff {n : String} : dotted n = n ↔ '/' ∉ n.toList :=
  ⟨fun h => h ▸ slash_notMem_dotted n, dotted_of_not_mem⟩

/-- The class of a target in normal form has no slash in its name. -/
theorem Target.slash_notMem_className_normal (t : Target) : '/' ∉ t.normal.className.toList := by
  rw [className_normal]
  exact slash_notMem_dotted _

/-- The class of a rule that is read from a line has no slash in its name. -/
theorem Rule.slash_notMem_of_parseLine {number : Nat} {raw : String} {r : Rule}
    (h : parseLine number raw = .ok (some r)) : '/' ∉ r.target.className.toList := by
  rw [← (readable_of_parseLine h).normal_eq]
  exact r.target.slash_notMem_className_normal

/-! ## Looking up -/

namespace RuleSet

variable {s : RuleSet} {n : String} {r : Rule}

/-- **The rules that are found under a name** are those of the set whose class has that name, with
dots for slashes. -/
theorem mem_rulesForClass_iff :
    r ∈ s.rulesForClass n ↔ r ∈ s.rules.toList ∧ r.target.className = dotted n := by
  rw [rulesForClass_eq, List.mem_filter, decide_eq_true_eq]

/-- The names of classes are those of the classes of the rules. -/
theorem mem_classNames_iff : n ∈ s.classNames ↔ ∃ r ∈ s.rules.toList, r.target.className = n := by
  conv_lhs => rw [← s.ofRules_toList]
  exact (classNames_ofRules s.rules.toList).2 n

/-- **There are rules under a name** if a class has that name, with dots for slashes. -/
theorem rulesForClass_ne_nil_iff : s.rulesForClass n ≠ [] ↔ dotted n ∈ s.classNames := by
  rw [Ne, List.eq_nil_iff_forall_not_mem, mem_classNames_iff]
  simp only [mem_rulesForClass_iff, not_forall, not_not]

/-- **A rule is found under the name of its class exactly if that name has no slash**, and under no
name otherwise. So rules that are read from lines are found, and rules with a target that was
brought in normal form. Under the name of a class of the set there are rules exactly if that name,
with dots for slashes, is the name of a class of the set as well, and so wherever the name has no
slash. -/
theorem found_under_class (s : RuleSet) :
    (∀ r ∈ s.rules.toList,
      (r ∈ s.rulesForClass r.target.className ↔ '/' ∉ r.target.className.toList) ∧
        ('/' ∈ r.target.className.toList → ∀ n, r ∉ s.rulesForClass n) ∧
        ((∃ number raw, Rule.parseLine number raw = .ok (some r)) ∨
            (∃ t : Target, r.target = t.normal) →
          r ∈ s.rulesForClass r.target.className)) ∧
      ∀ n ∈ s.classNames, (s.rulesForClass n ≠ [] ↔ dotted n ∈ s.classNames) ∧
        ('/' ∉ n.toList → s.rulesForClass n ≠ []) := by
  have hfound : ∀ r ∈ s.rules.toList,
      (r ∈ s.rulesForClass r.target.className ↔ '/' ∉ r.target.className.toList) := by
    intro r hr
    rw [mem_rulesForClass_iff, and_iff_right hr, eq_comm, dotted_eq_iff]
  constructor
  · intro r hr
    refine ⟨hfound r hr, fun hslash n hn => ?_, fun hmade => (hfound r hr).2 ?_⟩
    · rw [(mem_rulesForClass_iff.1 hn).2] at hslash
      exact slash_notMem_dotted n hslash
    · rcases hmade with ⟨number, raw, hline⟩ | ⟨t, ht⟩
      · exact Rule.slash_notMem_of_parseLine hline
      · rw [ht]
        exact t.slash_notMem_className_normal
  · intro n hn
    refine ⟨rulesForClass_ne_nil_iff, fun hslash => rulesForClass_ne_nil_iff.2 ?_⟩
    rwa [dotted_of_not_mem hslash]

/-- A set with a rule for a class, whose name is given with a slash, and one for a field of that
class, whose name is given with a dot. The first one is not found, but under either name the second
one is. -/
theorem found_under_class_sample :
    let whole : Rule := ⟨.classLevel "a/B", .everywhere, Edits.none⟩
    let member : Rule := ⟨.field "a.B" "x", .everywhere, Edits.none⟩
    let s := ofRules [whole, member]
    (∀ n, whole ∉ s.rulesForClass n) ∧ member ∈ s.rulesForClass "a.B" ∧ "a/B" ∈ s.classNames ∧
      s.rulesForClass "a/B" ≠ [] := by
  intro whole member s
  have hnames : "a/B" ∈ s.classNames ∧ dotted "a/B" ∈ s.classNames := by decide +kernel
  obtain ⟨hrules, hclasses⟩ := found_under_class s
  obtain ⟨-, hhidden, -⟩ := hrules whole List.mem_cons_self
  obtain ⟨-, -, hfound⟩ := hrules member (List.mem_cons_of_mem _ List.mem_cons_self)
  exact ⟨hhidden (by decide), hfound (.inr ⟨member.target, rfl⟩), hnames.1,
    (hclasses _ hnames.1).1.2 hnames.2⟩

/-- **Not every rule is found under the name of its class.** Under the name of a class with a slash,
the only one of its set, there are no rules. -/
theorem not_found_under_class :
    ∃ (s : RuleSet) (r : Rule), r ∈ s.rules.toList ∧ r ∉ s.rulesForClass r.target.className ∧
      r.target.className ∈ s.classNames ∧ s.rulesForClass r.target.className = [] :=
  ⟨ofRules [⟨.classLevel "a/B", .everywhere, Edits.none⟩],
    ⟨.classLevel "a/B", .everywhere, Edits.none⟩,
    List.mem_cons_self, by decide +kernel, by decide +kernel, by decide +kernel⟩

end RuleSet

end ClassAccess
