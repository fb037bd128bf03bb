import ClassAccess.Proofs.RuleSet.Lookup

/-!
# What an index answers

The index of a class answers every question about a member, about its class and about an inner class
with what a scan of the plain list of rules finds.

## Main definitions

* `Rule.Layers` — what comes of a rule for all members and a rule for one of them.

## Main results

* `RuleIndex.layers_of_lastFor` — layering the last rules for two targets always succeeds.
* `RuleIndex.exists_fieldRule?`, `RuleIndex.exists_methodRule?` — what the answers ask for.
* `RuleIndex.answers_scan_rules` — all answers of an index.

## Implementation notes

A rule that results from layering is described by its target, its level and its action on each
modifier. In which order its edits stand is left open, as no modifier is edited twice.
-/

set_option autoImplicit false

namespace ClassAccess

/-- What comes of a rule for all members and a rule for one of them, where each may be missing. -/
inductive Rule.Layers : (wildcard exact found : Option Rule) → Prop
  /-- No rule comes of none. -/
  | neither : Layers none none none
  /-- The rule for all members stands for itself. -/
  | wildcardOnly (w : Rule) : Layers (some w) none (some w)
  /-- So does the rule for one member. -/
  | exactOnly (e : Rule) : Layers none (some e) (some e)
  /-- Of two rules comes one for the target of the exact one, with the wider level and, for each
  modifier, the edit of the exact rule if it has one. -/
  | both {w e r : Rule} (target : r.target = e.target) (level : r.level = max w.level e.level)
      (action : ∀ m, r.edits.action? m = (e.edits.action? m).or (w.edits.action? m)) :
      Layers (some w) (some e) (some r)

/-- What comes of two rules asks for what either of them does. -/
theorem Rule.Layers.request_eq {wildcard exact found : Option Rule}
    (h : Rule.Layers wildcard exact found) :
    found.map Rule.request = Request.both (wildcard.map Rule.request) (exact.map Rule.request) := by
  cases h with
  | neither | wildcardOnly _ | exactOnly _ => rfl
  | @both w e r target level action =>
    show some (Rule.request r) = some (e.request.above w.request)
    rw [Rule.request, level, action]
    rfl

namespace RuleIndex

variable {rules : List Rule} {wildcard exact : Target}

/-- A rule for all members of a kind goes under any rule for one of them. -/
theorem layer_eq_ok {wildcard specific : Rule} (hw : wildcard.target.isWildcard = true)
    (hkind : wildcard.target.kind = specific.target.kind)
    (hclass : wildcard.target.className = specific.target.className) :
    wildcard.layer specific = .ok ⟨specific.target, max wildcard.level specific.level,
      wildcard.edits.putAll specific.edits.toList⟩ := by
  rw [Rule.layer, if_pos]
  · exact Rule.merge_of_eq rfl
  · rw [hw, decide_eq_true hkind, decide_eq_true hclass]
    rfl

/-- **Layering the last rules for two targets always succeeds**, if the first target stands for all
members of the kind and the class of the second one. Rules that are found for a target have that
very target, so that the check of the targets cannot fail. -/
theorem layers_of_lastFor (hw : wildcard.isWildcard = true) (hkind : wildcard.kind = exact.kind)
    (hclass : wildcard.className = exact.className) :
    ∃ found, layered (lastFor rules wildcard) (lastFor rules exact) = .ok found ∧
      Rule.Layers (lastFor rules wildcard) (lastFor rules exact) found := by
  cases hfw : lastFor rules wildcard with
  | none =>
    cases lastFor rules exact with
    | none => exact ⟨none, rfl, .neither⟩
    | some e => exact ⟨some e, rfl, .exactOnly e⟩
  | some w =>
    cases hfe : lastFor rules exact with
    | none => exact ⟨some w, rfl, .wildcardOnly w⟩
    | some e =>
      have hwt := target_of_lastFor hfw
      have het := target_of_lastFor hfe
      have hlayer := layer_eq_ok (hwt ▸ hw) (hwt ▸ het ▸ hkind) (hwt ▸ het ▸ hclass)
      refine ⟨some _, congrArg (some <$> ·) hlayer, .both rfl rfl fun m => ?_⟩
      exact Edits.action?_putAll _ e.edits.nodup m

/-- The rule that applies to a field is layered from the last rules for all fields and for that
one. -/
theorem layers_fieldRule? (s : RuleSet) (n name : String) :
    ∃ found, (ofSet s n).fieldRule? name = .ok found ∧
      Rule.Layers (lastFor s.rules.toList (.field (dotted n) Target.anyField))
        (lastFor s.rules.toList (.field (dotted n) name)) found := by
  rw [fieldRule?, getElem?_fields, getElem?_fields]
  exact layers_of_lastFor (by simp [Target.isWildcard]) rfl rfl

/-- The rule that applies to a method is layered from the last rules for all methods and for that
one. -/
theorem layers_methodRule? (s : RuleSet) (n name descriptor : String) :
    ∃ found, (ofSet s n).methodRule? name descriptor = .ok found ∧
      Rule.Layers (lastFor s.rules.toList (.method (dotted n) Target.anyMethod))
        (lastFor s.rules.toList (.method (dotted n) (name ++ descriptor))) found := by
  rw [methodRule?, getElem?_methods, getElem?_methods]
  exact layers_of_lastFor (by simp [Target.isWildcard]) rfl rfl

/-- **The rule that applies to a field** asks for what the rules ask for that field. -/
theorem exists_fieldRule? (s : RuleSet) (n name : String) :
    ∃ r?, (ofSet s n).fieldRule? name = .ok r? ∧
      r?.map Rule.request = Request.forField s.rules.toList n name := by
  obtain ⟨found, hfound, hlayers⟩ := layers_fieldRule? s n name
  exact ⟨found, hfound, hlayers.request_eq⟩

/-- **The rule that applies to a method** asks for what the rules ask for that method. -/
theorem exists_methodRule? (s : RuleSet) (n name descriptor : String) :
    ∃ r?, (ofSet s n).methodRule? name descriptor = .ok r? ∧
      r?.map Rule.request = Request.forMethod s.rules.toList n name descriptor := by
  obtain ⟨found, hfound, hlayers⟩ := layers_methodRule? s n name descriptor
  exact ⟨found, hfound, hlayers.request_eq⟩

/-- **All answers of an index are scans of the rules.** The last rule for a member counts, layered
over the last rule for all members of its kind, and the first rule for a class as a whole. -/
theorem answers_scan_rules (s : RuleSet) (className : String) :
    (∀ name, ∃ found, (ofSet s className).fieldRule? name = .ok found ∧
      Rule.Layers (lastFor s.rules.toList (.field (dotted className) Target.anyField))
        (lastFor s.rules.toList (.field (dotted className) name)) found) ∧
    (∀ name descriptor, ∃ found, (ofSet s className).methodRule? name descriptor = .ok found ∧
      Rule.Layers (lastFor s.rules.toList (.method (dotted className) Target.anyMethod))
        (lastFor s.rules.toList (.method (dotted className) (name ++ descriptor))) found) ∧
    (ofSet s className).classRule? = firstFor s.rules.toList (.classLevel (dotted className)) ∧
    ∀ other, (ofSet s other).innerClassRule? className =
      firstFor s.rules.toList (.classLevel (dotted className)) := by
  refine ⟨fun name => ?_, fun name descriptor => ?_, classRule?_ofSet s className, fun other => ?_⟩
  · exact layers_fieldRule? s className name
  · exact layers_methodRule? s className name descriptor
  · exact s.classRule?_eq className

/-- A name that is the star itself is answered with the rule for all fields, layered over itself. -/
example :
    (ofSet (.ofRules [.ofEdits (.field "a.B" "*") .everywhere [⟨.final, .clear⟩]])
      "a/B").fieldRule? "*" =
    .ok (some (.ofEdits (.field "a.B" "*") .everywhere [⟨.final, .clear⟩])) := by
  decide +kernel

end RuleIndex

end ClassAccess
