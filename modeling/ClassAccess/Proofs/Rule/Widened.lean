import ClassAccess.Proofs.Rule.Request

/-!
# Granting a request never narrows access

Whatever bits a flag word has, also several visibility bits at once, a request that is granted
leaves its level or raises it, and touches no bits but those of visibility and the final flag. Where
it touches visibility, the bits are those of the level asked for.

## Main definitions

* `Flags.editable` — the bits that a request may touch.
* `Flags.Widened` — a flag word and a later one that is at least as wide and the same elsewhere.

## Main results

* `Request.widened_raise`, `Request.widened_grant` — a word is widened by a request.
* `Request.raise_visible_of_ne`, `Request.grant_visible_of_ne` — the bits of the level asked for.
-/

set_option autoImplicit false

namespace ClassAccess

namespace Flags

/-! ## Bits -/

/-- The bits of a mask in two words put together. -/
theorem or_and_distrib (v w m : Flags) : (v ||| w) &&& m = (v &&& m) ||| (w &&& m) := by
  apply UInt16.toBitVec_inj.1
  exact BitVec.and_or_distrib_right

/-- Setting bits outside a mask does not show in it. -/
theorem or_and_of_apart {w b m : Flags} (h : b &&& m = 0) : (w ||| b) &&& m = w &&& m := by
  rw [or_and_distrib, h, UInt16.or_zero]

/-- Clearing bits outside a mask does not show in it. -/
theorem and_not_and_of_apart {w b m : Flags} (h : b &&& m = 0) :
    (w &&& ~~~b) &&& m = w &&& m := by
  have hkeep : ~~~b &&& m = m := by
    have hsplit := or_and_distrib b (~~~b) m
    rw [h, UInt16.zero_or, UInt16.or_not_self, UInt16.neg_one_and] at hsplit
    exact hsplit.symm
  rw [UInt16.and_assoc, hkeep]

/-- Bits of a mask that were exchanged are the new ones. -/
theorem exchange_and {w b m : Flags} (h : b &&& m = b) : ((w &&& ~~~m) ||| b) &&& m = b := by
  rw [or_and_distrib, h, UInt16.and_assoc, UInt16.not_and_self, UInt16.and_zero, UInt16.zero_or]

/-! ## Visibility -/

/-- The visibility bits of a word. -/
def visible (w : Flags) : Flags := w &&& visibilityMask

/-- The bits that a request may touch: those of visibility and the final flag. -/
def editable : Flags := visibilityMask ||| finalBit

/-- A visibility bit of a word is one of its visibility bits. -/
theorem meets_eq_of_visible {v w bit : Flags} (hbit : visibilityMask &&& bit = bit)
    (h : v.visible = w.visible) : v.meets bit = w.meets bit := by
  have hmask : ∀ u : Flags, u &&& bit = u.visible &&& bit := by
    intro u
    rw [visible, UInt16.and_assoc, hbit]
  rw [meets, meets, hmask v, hmask w, h]

/-- **The level of a word depends only on its visibility bits.** -/
theorem ofFlags_eq_of_visible {v w : Flags} (h : v.visible = w.visible) :
    Level.ofFlags v = Level.ofFlags w := by
  unfold Level.ofFlags
  rw [meets_eq_of_visible (by decide) h, meets_eq_of_visible (by decide) h,
    meets_eq_of_visible (by decide) h]

/-- A word with the visibility bits of a level has that level. -/
theorem ofFlags_of_visible_eq_flag {w : Flags} {level : Level} (h : w.visible = level.flag) :
    Level.ofFlags w = level := by
  have hflag : level.flag.visible = level.flag ∧ Level.ofFlags level.flag = level := by
    cases level <;> decide
  rw [ofFlags_eq_of_visible (h.trans hflag.1.symm), hflag.2]

/-- An edit of the final flag does not show in a mask without it. -/
theorem editFinal_and {m : Flags} (hapart : finalBit &&& m = 0) (w : Flags)
    (action : Option EditAction) : w.editFinal action &&& m = w &&& m := by
  cases action with
  | none => rfl
  | some action =>
    cases action with
    | set => exact or_and_of_apart hapart
    | clear => exact and_not_and_of_apart hapart

/-- An edit of the final flag does not touch visibility. -/
theorem visible_editFinal (w : Flags) (action : Option EditAction) :
    (w.editFinal action).visible = w.visible :=
  editFinal_and (by decide) w action

/-! ## Widening -/

/-- The word `after` is at least as wide as `before`, and differs only in bits that a request may
touch. -/
structure Widened (before after : Flags) : Prop where
  /-- The level is kept or raised. -/
  level : Level.ofFlags before ≤ Level.ofFlags after
  /-- All other bits stay. -/
  rest : after &&& ~~~editable = before &&& ~~~editable

namespace Widened

variable {u v w : Flags}

/-- A word is as wide as itself. -/
theorem refl (w : Flags) : w.Widened w := ⟨Nat.le_refl _, rfl⟩

/-- Widening twice is widening. -/
theorem trans (h : u.Widened v) (h' : v.Widened w) : u.Widened w :=
  ⟨Nat.le_trans h.level h'.level, h'.rest.trans h.rest⟩

end Widened

/-- An edit of the final flag widens. -/
theorem widened_editFinal (w : Flags) (action : Option EditAction) :
    w.Widened (w.editFinal action) := by
  constructor
  · rw [ofFlags_eq_of_visible (visible_editFinal w action)]
    exact Nat.le_refl _
  · exact editFinal_and (by decide) w action

end Flags

/-! ## Requests -/

namespace Request

/-- Where the level of a word is raised, its visibility bits are those of the level asked for. -/
theorem raise_visible_of_ne {q : Request} {w : Flags} (h : (q.raise w).visible ≠ w.visible) :
    (q.raise w).visible = q.level.flag := by
  rw [raise] at h ⊢
  by_cases hlt : Level.ofFlags w < q.level
  · have hflag : q.level.flag &&& Flags.visibilityMask = q.level.flag := by
      cases q.level <;> decide
    rw [if_pos hlt]
    exact Flags.exchange_and hflag
  · rw [if_neg hlt] at h
    exact absurd rfl h

/-- **Raising a word widens it**, whatever visibility bits it has. -/
theorem widened_raise (q : Request) (w : Flags) : w.Widened (q.raise w) := by
  rw [raise]
  by_cases hlt : Level.ofFlags w < q.level
  · have hflag : q.level.flag &&& Flags.visibilityMask = q.level.flag ∧
        q.level.flag &&& ~~~Flags.editable = 0 := by
      cases q.level <;> decide
    have hmask : Flags.visibilityMask &&& ~~~Flags.editable = 0 := by decide
    rw [if_pos hlt]
    constructor
    · rw [Flags.ofFlags_of_visible_eq_flag (Flags.exchange_and hflag.1)]
      exact Nat.le_of_lt hlt
    · rw [Flags.or_and_of_apart hflag.2, Flags.and_not_and_of_apart hmask]
  · rw [if_neg hlt]
    exact .refl w

/-- **Granting a request widens the word.** -/
theorem widened_grant (q : Request) (w : Flags) : w.Widened (q.grant w).flags :=
  (q.widened_raise w).trans (Flags.widened_editFinal (q.raise w) q.final)

/-- Granting a request does to visibility what raising the level does. -/
theorem visible_grant (q : Request) (w : Flags) : (q.grant w).flags.visible = (q.raise w).visible :=
  Flags.visible_editFinal _ _

/-- Where a granted request changes the visibility bits of a word, they are those of the level asked
for. -/
theorem grant_visible_of_ne {q : Request} {w : Flags} (h : (q.grant w).flags.visible ≠ w.visible) :
    (q.grant w).flags.visible = q.level.flag := by
  rw [visible_grant] at h ⊢
  exact raise_visible_of_ne h

end Request

end ClassAccess
