import ClassAccess.Proofs.Rule.Sequence

/-!
# Merging rules is applying them in turn

A merged rule does to every flag word what its two rules do one after the other, and so does a rule
that is put over a wildcard. Rules merge exactly if they have the same target, it does not matter
which two of three rules are merged first, and a rule that is merged with itself stays as it is.

## Main results

* `Edits.applyList_ofList` — a list of edits does what is left of it when later edits replace
  earlier ones.
* `Edits.putAll_putAll` — putting edits is associative.
* `Rule.newFlags_of_merge`, `Rule.newFlags_of_layer` — rules in turn.
* `Rule.merging_is_applying_in_turn` — all laws of merging.

## Implementation notes

With a single modifier, the order in which edits are kept is a matter of course: by
`Edits.toList_eq`, edits that do the same are the same.
-/

set_option autoImplicit false

namespace ClassAccess

/-! ## Carrying out edits -/

/-- An edit does its action to the final flag. -/
theorem Edit.apply_eq (e : Edit) (w : Flags) : e.apply w = w.editFinal (some e.action) := by
  obtain ⟨modifier, action⟩ := e
  cases modifier
  cases action <;> rfl

namespace Edits

/-- An edit that was put is carried out last. -/
theorem applyList_put (es : Edits) (e : Edit) (w : Flags) :
    applyList (es.put e).toList w = e.apply (applyList es.toList w) := by
  have haction : (es.put e).action? .final = some e.action := by
    rw [action?_put]
    exact if_pos rfl
  rw [applyList_eq, applyList_eq, haction, e.apply_eq, Flags.editFinal_editFinal, Option.some_or]

/-- Edits that were put are carried out in their order, after what was there. -/
theorem applyList_putAll (es : Edits) (l : List Edit) (w : Flags) :
    applyList (es.putAll l).toList w = applyList l (applyList es.toList w) := by
  induction l generalizing es with
  | nil => rfl
  | cons e l ih =>
    rw [putAll_cons, ih, applyList_put]
    rfl

/-- **A list of edits does what is left of it** when later edits replace earlier ones. -/
theorem applyList_ofList (l : List Edit) (w : Flags) :
    applyList (ofList l).toList w = applyList l w :=
  applyList_putAll none l w

/-! ## Putting edits -/

/-- Edits that do the same are the same. -/
theorem eq_of_action? {es fs : Edits} (h : es.action? .final = fs.action? .final) : es = fs := by
  have hlist : es.toList = fs.toList := by
    rw [es.toList_eq, fs.toList_eq, h]
  cases es
  cases fs
  cases hlist
  rfl

/-- What edits do that were put on others: what they do themselves, or what was done before. -/
theorem action?_putAll_toList (es fs : Edits) (m : Modifier) :
    (es.putAll fs.toList).action? m = (fs.action? m).or (es.action? m) :=
  es.action?_putAll fs.nodup m

/-- Putting all edits once more changes nothing. -/
theorem putAll_self (es : Edits) : es.putAll es.toList = es := by
  apply eq_of_action?
  rw [action?_putAll_toList, Option.or_self]

/-- **Putting edits is associative.** -/
theorem putAll_putAll (es fs gs : Edits) :
    es.putAll (fs.putAll gs.toList).toList = (es.putAll fs.toList).putAll gs.toList := by
  apply eq_of_action?
  simp only [action?_putAll_toList, Option.or_assoc]

end Edits

/-! ## Merging -/

namespace Rule

variable {a b c m : Rule}

/-- **Rules merge exactly if they have the same target.** -/
theorem exists_merge_iff : (∃ m, a.merge b = .ok m) ↔ a.target = b.target := by
  constructor
  · intro h
    obtain ⟨m, hm⟩ := h
    by_cases htarget : a.target = b.target
    · exact htarget
    · simp [merge_of_ne htarget] at hm
  · intro h
    exact ⟨_, merge_of_eq h⟩

/-- A rule that asks for what `b` does over what `a` does is applied like `a` and then `b`. -/
theorem newFlags_of_request (h : m.request = b.request.above a.request) (w : Flags) :
    newFlags w (some m) = newFlags (newFlags w (some a)) (some b) := by
  simp only [newFlags, overrideAccess_eq_grant]
  rw [h, Request.grant_grant]

/-- **A merged rule is applied like its two rules in turn**, to any flag word. -/
theorem newFlags_of_merge (h : a.merge b = .ok m) (w : Flags) :
    newFlags w (some m) = newFlags (newFlags w (some a)) (some b) :=
  newFlags_of_request (request_of_merge h) w

/-- **A rule over a wildcard is applied like the wildcard and then the rule.** -/
theorem newFlags_of_layer (h : a.layer b = .ok m) (w : Flags) :
    newFlags w (some m) = newFlags (newFlags w (some a)) (some b) :=
  newFlags_of_request (request_of_layer h) w

/-- A rule that is merged with itself stays as it is. -/
theorem merge_self (a : Rule) : a.merge a = .ok a := by
  rw [merge_of_eq rfl, Level.max_self, Edits.putAll_self]

/-- What comes of three rules of which the first two are merged first. -/
theorem merge_bind_merge (a b c : Rule) :
    (a.merge b >>= fun ab => ab.merge c) =
      if a.target = b.target then
        if b.target = c.target then
          .ok ⟨a.target, max (max a.level b.level) c.level,
            (a.edits.putAll b.edits.toList).putAll c.edits.toList⟩
        else .error ⟨b.target, c.target⟩
      else .error ⟨a.target, b.target⟩ := by
  by_cases hab : a.target = b.target
  · rw [if_pos hab, merge_of_eq hab]
    by_cases hbc : b.target = c.target
    · rw [if_pos hbc]
      exact merge_of_eq (hab.trans hbc)
    · rw [if_neg hbc, ← hab]
      exact merge_of_ne fun hac => hbc (hab.symm.trans hac)
  · rw [if_neg hab, merge_of_ne hab]
    rfl

/-- What comes of three rules of which the last two are merged first. -/
theorem merge_bind_merge_right (a b c : Rule) :
    (b.merge c >>= fun bc => a.merge bc) =
      if b.target = c.target then
        if a.target = b.target then
          .ok ⟨a.target, max (max a.level b.level) c.level,
            (a.edits.putAll b.edits.toList).putAll c.edits.toList⟩
        else .error ⟨a.target, b.target⟩
      else .error ⟨b.target, c.target⟩ := by
  by_cases hbc : b.target = c.target
  · rw [if_pos hbc, merge_of_eq hbc]
    by_cases hab : a.target = b.target
    · rw [if_pos hab, Level.max_assoc, ← Edits.putAll_putAll]
      exact merge_of_eq hab
    · rw [if_neg hab]
      exact merge_of_ne hab
  · rw [if_neg hbc, merge_of_ne hbc]
    rfl

/-- **It does not matter which two of three rules are merged first**: the same rule results, or none
does. If the middle rule has the target of one of the others, a failure names the same targets too;
otherwise it names those of the two rules that are merged first. -/
theorem merge_assoc (a b c : Rule) :
    (a.merge b >>= fun ab => ab.merge c) = (b.merge c >>= fun bc => a.merge bc) ∨
      (a.merge b >>= fun ab => ab.merge c) = .error ⟨a.target, b.target⟩ ∧
        (b.merge c >>= fun bc => a.merge bc) = .error ⟨b.target, c.target⟩ := by
  rw [merge_bind_merge, merge_bind_merge_right]
  by_cases hab : a.target = b.target
  · left
    simp [hab]
  · by_cases hbc : b.target = c.target
    · left
      simp [hbc]
    · right
      simp [hab, hbc]

/-- **Merging rules means applying them in turn.** A merged rule, and a rule over a wildcard, does
to every flag word what the two rules do one after the other; rules merge exactly if they have the
same target; it does not matter which two of three rules are merged first, also if they do not
merge; a rule merged with itself stays; and a rule that is made of a list of edits raises the level
and then makes every edit of the list, so that nothing is lost when later edits replace earlier
ones. -/
theorem merging_is_applying_in_turn :
    (∀ a b m : Rule, a.merge b = .ok m →
      ∀ w, newFlags w (some m) = newFlags (newFlags w (some a)) (some b)) ∧
    (∀ wildcard specific m : Rule, wildcard.layer specific = .ok m →
      ∀ w, newFlags w (some m) = newFlags (newFlags w (some wildcard)) (some specific)) ∧
    (∀ a b : Rule, (∃ m, a.merge b = .ok m) ↔ a.target = b.target) ∧
    (∀ a b c : Rule,
      (a.merge b >>= fun ab => ab.merge c).toOption =
        (b.merge c >>= fun bc => a.merge bc).toOption ∧
      ((a.merge b >>= fun ab => ab.merge c) = (b.merge c >>= fun bc => a.merge bc) ∨
        (a.merge b >>= fun ab => ab.merge c) = .error ⟨a.target, b.target⟩ ∧
          (b.merge c >>= fun bc => a.merge bc) = .error ⟨b.target, c.target⟩)) ∧
    (∀ a : Rule, a.merge a = .ok a) ∧
    ∀ (target : Target) (level : Level) (edits : List Edit) (w : Flags),
      newFlags w (some (ofEdits target level edits)) =
        Edits.applyList edits (overrideLevel w level).flags := by
  refine ⟨fun a b m h w => newFlags_of_merge h w, fun a b m h w => newFlags_of_layer h w,
    fun a b => exists_merge_iff, fun a b c => ⟨?_, merge_assoc a b c⟩, merge_self,
    fun target level edits w => Edits.applyList_ofList edits _⟩
  rcases merge_assoc a b c with hsame | ⟨hleft, hright⟩
  · rw [hsame]
  · rw [hleft, hright]
    rfl

/-- Two rules for a field, merged and put on a word that is private, protected and final at once. -/
theorem merging_is_applying_in_turn_sample :
    let narrow : Rule := .ofEdits (.field "A" "m") .subclasses [⟨.final, .set⟩]
    let wide : Rule := .ofEdits (.field "A" "m") .everywhere [⟨.final, .set⟩, ⟨.final, .clear⟩]
    let merged : Rule := .ofEdits (.field "A" "m") .everywhere [⟨.final, .clear⟩]
    narrow.merge wide = .ok merged ∧
      newFlags 0x16 (some merged) = newFlags (newFlags 0x16 (some narrow)) (some wide) ∧
      newFlags 0x16 (some merged) = 0x01 := by
  intro narrow wide merged
  have hmerge : narrow.merge wide = .ok merged := merge_of_eq rfl
  exact ⟨hmerge, merging_is_applying_in_turn.1 narrow wide merged hmerge 0x16, by decide⟩

end Rule

end ClassAccess
