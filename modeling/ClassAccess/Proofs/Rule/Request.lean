import ClassAccess.Rule.Policy

/-!
# What a rule asks for

Of a rule, the policy sees the level and what is to be done to the final flag. Two requests for the
same element are put together like the rules that they are from.

## Main definitions

* `Request` — a level and an edit of the final flag.
* `Rule.request` — what a rule asks for.
* `Request.above` — a request for one member over one for all members.
* `Request.grant` — what becomes of a flag word.

## Main results

* `overrideAccess_eq_grant` — the policy grants what a rule asks for.
* `Rule.request_of_merge`, `Rule.request_of_layer` — merging and layering rules puts their requests
  together.
-/

set_option autoImplicit false

namespace ClassAccess

/-! ## Edits of one flag -/

/-- The flag word with its final flag set, cleared or left alone. -/
def Flags.editFinal (flags : Flags) : Option EditAction → Flags
  | none => flags
  | some .set => flags ||| finalBit
  | some .clear => flags &&& ~~~finalBit

namespace Edits

/-- What is done to a modifier after many edits were put: what the last of them says, or what was
done before. -/
theorem action?_putAll (es : Edits) {l : List Edit} (hl : (l.map Edit.modifier).Nodup)
    (m : Modifier) :
    (es.putAll l).action? m =
      ((l.find? fun e => e.modifier = m).map Edit.action).or (es.action? m) := by
  induction l generalizing es with
  | nil => rfl
  | cons e l ih =>
    rw [List.map_cons, List.nodup_cons] at hl
    rw [putAll_cons, ih _ hl.2, action?_put]
    by_cases he : e.modifier = m
    · have hnone : l.find? (fun e => e.modifier = m) = .none := by
        rw [List.find?_eq_none]
        intro d hd hdm
        have hmod : d.modifier = e.modifier := (of_decide_eq_true hdm).trans he.symm
        exact hl.1 (hmod ▸ List.mem_map_of_mem hd)
      rw [hnone, if_pos he, List.find?_cons, decide_eq_true he]
      rfl
    · rw [if_neg he, List.find?_cons, decide_eq_false he]

/-- Carrying out edits is doing to the final flag what they say. -/
theorem applyList_eq (es : Edits) (flags : Flags) :
    applyList es.toList flags = flags.editFinal (es.action? .final) := by
  rw [es.toList_eq]
  cases es.action? .final with
  | none => rfl
  | some a => cases a <;> rfl

end Edits

/-! ## Requests -/

/-- A level and what to do to the final flag. -/
structure Request where
  /-- The level asked for. -/
  level : Level
  /-- What to do to the final flag, if anything. -/
  final : Option EditAction
deriving DecidableEq, Repr

/-- What a rule asks for. -/
def Rule.request (r : Rule) : Request := ⟨r.level, r.edits.action? .final⟩

namespace Request

/-- The request `specific` for one member over the request `wildcard` for all members: the wider
level, and the edit of `specific` before that of `wildcard`. -/
def above (specific wildcard : Request) : Request :=
  ⟨max wildcard.level specific.level, specific.final.or wildcard.final⟩

/-- What is asked for by something earlier and by something later, or for all members and for one,
each of which may ask for nothing: the later request is put over the earlier one. -/
def both (earlier later : Option Request) : Option Request :=
  Option.merge (fun q r => r.above q) earlier later

@[simp]
theorem both_none_left (q? : Option Request) : both none q? = q? := Option.merge_none_left

@[simp]
theorem both_none_right (q? : Option Request) : both q? none = q? := Option.merge_none_right

@[simp]
theorem both_some_some (q r : Request) : both (some q) (some r) = some (r.above q) := rfl

/-- The flag word with the level asked for, if that is above its own. -/
def raise (q : Request) (flags : Flags) : Flags :=
  if Level.ofFlags flags < q.level then (flags &&& ~~~Flags.visibilityMask) ||| q.level.flag
  else flags

/-- The refusal of a level below that of the flag word. -/
def refusal? (q : Request) (flags : Flags) : Option Downgrade :=
  if q.level < Level.ofFlags flags then some ⟨Level.ofFlags flags, q.level⟩ else none

/-- The flag word with the level and the edit asked for, and the refusal. -/
def grant (q : Request) (flags : Flags) : Override :=
  ⟨(q.raise flags).editFinal q.final, q.refusal? flags⟩

end Request

/-- The visibility half of the policy. -/
theorem overrideLevel_eq (flags : Flags) (q : Request) :
    overrideLevel flags q.level = ⟨q.raise flags, q.refusal? flags⟩ := by
  have hle : q.level ≤ Level.ofFlags flags ↔ ¬Level.ofFlags flags < q.level := by
    show q.level.rank ≤ (Level.ofFlags flags).rank ↔ ¬(Level.ofFlags flags).rank < q.level.rank
    omega
  rw [overrideLevel]
  by_cases h : Level.ofFlags flags < q.level
  · have hrefused : q.refusal? flags = none := by
      refine if_neg fun hlt => ?_
      exact absurd h (Nat.lt_asymm hlt)
    simp only [hle, h, not_true_eq_false, if_false, hrefused, Request.raise, if_true]
  · simp only [hle, h, not_false_eq_true, if_true, Request.raise, if_false]
    rfl

/-- **The policy grants what a rule asks for.** -/
theorem overrideAccess_eq_grant (flags : Flags) (r : Rule) :
    overrideAccess flags (some r) = r.request.grant flags := by
  have hlevel := overrideLevel_eq flags r.request
  show (⟨Edits.applyList r.edits.toList (overrideLevel flags r.request.level).flags,
    (overrideLevel flags r.request.level).denied⟩ : Override) = _
  rw [hlevel, Edits.applyList_eq]
  rfl

/-! ## Merged rules -/

namespace Rule

variable {a b r : Rule}

/-- Rules with the same target merge. -/
theorem merge_of_eq (h : a.target = b.target) :
    a.merge b = .ok ⟨a.target, max a.level b.level, a.edits.putAll b.edits.toList⟩ := by
  simp [merge, isMergeableWith, h]

/-- Other rules do not, and the error names their targets. -/
theorem merge_of_ne (h : a.target ≠ b.target) : a.merge b = .error ⟨a.target, b.target⟩ := by
  simp [merge, isMergeableWith, h]

/-- **Merging rules puts their requests together.** -/
theorem request_of_merge (h : a.merge b = .ok r) : r.request = b.request.above a.request := by
  by_cases htarget : a.target = b.target
  · rw [merge_of_eq htarget] at h
    cases h
    rw [request, Edits.action?_putAll _ b.edits.nodup]
    rfl
  · rw [merge_of_ne htarget] at h
    cases h

/-- **Layering rules puts their requests together.** -/
theorem request_of_layer {wildcard specific : Rule} (h : wildcard.layer specific = .ok r) :
    r.request = specific.request.above wildcard.request := by
  rw [layer] at h
  split at h
  · have hmerged := request_of_merge h
    exact hmerged
  · cases h

end Rule

end ClassAccess
