import ClassAccess.Proofs.Rule.Widened

/-!
# Requests granted one after the other

Granting a request and then another one is granting the second over the first: the wider of the two
levels, and the later edit. What is asked for an element can therefore be put together before
anything is granted, and what holds of requests holds of what they do.

## Main definitions

* `Request.ruling` — what becomes of a flag word if something is asked for its element.
* `Request.EditsOnlyBy` — a request that does nothing to the final flag but one action.

## Main results

* `Flags.editFinal_editFinal` — of two edits the later one counts.
* `Request.raise_raise` — raising twice is raising to the wider level.
* `Request.widened_ruling` — a ruling widens.
* `Request.ruling_both` — two rulings in a row are the ruling on both requests.
* `Request.both_left_comm` — where edits agree, the order of requests does not matter.
* `Request.denied_ruling_ruling` — what was refused once is refused again.
* `Request.private_of_ruling` — no ruling makes anything private.
-/

set_option autoImplicit false

namespace ClassAccess

/-! ## Levels -/

namespace Level

/-- The wider level of a level and a wider one. -/
theorem max_of_lt {a b : Level} (h : a < b) : max a b = b := by
  have hrank : a.rank < b.rank := h
  apply rank_injective
  rw [rank_max]
  omega

/-- The wider level of a level and one that is not wider. -/
theorem max_of_not_lt {a b : Level} (h : ¬a < b) : max a b = a := by
  have hrank : ¬a.rank < b.rank := h
  apply rank_injective
  rw [rank_max]
  omega

/-- The wider level of a level and itself. -/
theorem max_self (a : Level) : max a a = a := by
  apply rank_injective
  rw [rank_max]
  omega

/-- The wider of two levels does not depend on their order. -/
theorem max_comm (a b : Level) : max a b = max b a := by
  apply rank_injective
  simp only [rank_max]
  omega

/-- The widest of three levels, whichever two of them are compared first. -/
theorem max_assoc (a b c : Level) : max (max a b) c = max a (max b c) := by
  apply rank_injective
  simp only [rank_max]
  omega

/-- The widest of three levels does not depend on their order. -/
theorem max_left_comm (a b c : Level) : max a (max b c) = max b (max a c) := by
  apply rank_injective
  simp only [rank_max]
  omega

end Level

/-! ## Bits -/

namespace Flags

/-- Words with the same bits are the same. -/
theorem eq_of_bits {v w : Flags} (h : ∀ i (hi : i < 16), v.toBitVec[i] = w.toBitVec[i]) :
    v = w := by
  apply UInt16.toBitVec_inj.1
  ext i hi
  exact h i hi

/-- Bits that two words do not share. -/
theorem bits_of_apart {v w : Flags} (h : v &&& w = 0) {i : Nat} (hi : i < 16) :
    (v.toBitVec[i] && w.toBitVec[i]) = false := by
  have hbit := congrArg (fun u : Flags => u.toBitVec[i]) h
  simpa using hbit

/-- Setting or clearing the final flag undoes an earlier edit of it. -/
theorem editFinal_undone (w : Flags) (earlier : Option EditAction) :
    w.editFinal earlier ||| finalBit = w ||| finalBit ∧
      w.editFinal earlier &&& ~~~finalBit = w &&& ~~~finalBit := by
  obtain _ | _ | _ := earlier
  · exact ⟨rfl, rfl⟩
  all_goals
    constructor
    all_goals
      apply eq_of_bits
      intro i hi
      simp only [editFinal, UInt16.toBitVec_or, UInt16.toBitVec_and, UInt16.toBitVec_not,
        BitVec.getElem_or, BitVec.getElem_and, BitVec.getElem_not]
      cases w.toBitVec[i] <;> cases finalBit.toBitVec[i] <;> rfl

/-- **Of two edits of the final flag the later one counts.** -/
theorem editFinal_editFinal (w : Flags) (earlier later : Option EditAction) :
    (w.editFinal earlier).editFinal later = w.editFinal (later.or earlier) := by
  cases later with
  | none => rfl
  | some later =>
    cases later with
    | set => exact (editFinal_undone w earlier).1
    | clear => exact (editFinal_undone w earlier).2

/-- Bits of a mask that were exchanged may be exchanged once more. -/
theorem exchange_exchange {w m b b' : Flags} (h : b &&& ~~~m = 0) :
    (((w &&& ~~~m) ||| b) &&& ~~~m) ||| b' = (w &&& ~~~m) ||| b' := by
  apply eq_of_bits
  intro i hi
  have hbit := bits_of_apart h hi
  simp only [UInt16.toBitVec_or, UInt16.toBitVec_and, UInt16.toBitVec_not, BitVec.getElem_or,
    BitVec.getElem_and, BitVec.getElem_not] at hbit ⊢
  grind

/-- An edit of the final flag and an exchange of the bits of a mask that does not hold it may be
done in either order. -/
theorem exchange_editFinal {w m b : Flags} (action : Option EditAction) (hm : finalBit &&& m = 0)
    (hb : finalBit &&& b = 0) :
    (w.editFinal action &&& ~~~m) ||| b = ((w &&& ~~~m) ||| b).editFinal action := by
  obtain _ | _ | _ := action
  · rfl
  all_goals
    apply eq_of_bits
    intro i hi
    have hmbit := bits_of_apart hm hi
    have hbbit := bits_of_apart hb hi
    simp only [editFinal, UInt16.toBitVec_or, UInt16.toBitVec_and, UInt16.toBitVec_not,
      BitVec.getElem_or, BitVec.getElem_and, BitVec.getElem_not]
    grind

end Flags

/-! ## Requests in a row -/

namespace Request

/-- A word that is raised has the level asked for. -/
theorem raise_of_lt {q : Request} {w : Flags} (h : Level.ofFlags w < q.level) :
    q.raise w = (w &&& ~~~Flags.visibilityMask) ||| q.level.flag := if_pos h

/-- A word whose level is wide enough stays. -/
theorem raise_of_not_lt {q : Request} {w : Flags} (h : ¬Level.ofFlags w < q.level) :
    q.raise w = w := if_neg h

/-- **Raising a word gives the wider level** of its own and the one asked for. -/
theorem ofFlags_raise (q : Request) (w : Flags) :
    Level.ofFlags (q.raise w) = max (Level.ofFlags w) q.level := by
  by_cases h : Level.ofFlags w < q.level
  · have hflag : q.level.flag &&& Flags.visibilityMask = q.level.flag := by
      cases q.level <;> decide
    rw [raise_of_lt h, Level.max_of_lt h]
    exact Flags.ofFlags_of_visible_eq_flag (Flags.exchange_and hflag)
  · rw [raise_of_not_lt h, Level.max_of_not_lt h]

/-- **Raising a word twice is raising it to the wider level.** -/
theorem raise_raise {q r s : Request} (h : s.level = max q.level r.level) (w : Flags) :
    r.raise (q.raise w) = s.raise w := by
  have hrank : s.level.rank = max q.level.rank r.level.rank := by rw [h, Level.rank_max]
  have hlt : ∀ {a b : Level}, a < b ↔ a.rank < b.rank := Iff.rfl
  by_cases hq : Level.ofFlags w < q.level
  · have hlevel : Level.ofFlags (q.raise w) = q.level := by
      rw [ofFlags_raise, Level.max_of_lt hq]
    have hs : Level.ofFlags w < s.level := by
      rw [hlt] at hq ⊢
      omega
    by_cases hr : q.level < r.level
    · have hflag : q.level.flag &&& ~~~Flags.visibilityMask = 0 := by
        cases q.level <;> decide
      rw [raise_of_lt (hlevel ▸ hr), raise_of_lt hq, raise_of_lt hs, h, Level.max_of_lt hr]
      exact Flags.exchange_exchange hflag
    · rw [raise_of_not_lt (hlevel ▸ hr), raise_of_lt hq, raise_of_lt hs, h, Level.max_of_not_lt hr]
  · rw [raise_of_not_lt hq]
    by_cases hr : Level.ofFlags w < r.level
    · have hqr : q.level < r.level := by
        rw [hlt] at hq hr ⊢
        omega
      have hs : s.level = r.level := h.trans (Level.max_of_lt hqr)
      rw [raise, raise, hs]
    · have hs : ¬Level.ofFlags w < s.level := by
        rw [hlt] at hq hr ⊢
        omega
      rw [raise_of_not_lt hr, raise_of_not_lt hs]

/-- Raising a word and editing its final flag may be done in either order. -/
theorem raise_editFinal (q : Request) (w : Flags) (action : Option EditAction) :
    q.raise (w.editFinal action) = (q.raise w).editFinal action := by
  have hlevel : Level.ofFlags (w.editFinal action) = Level.ofFlags w :=
    Flags.ofFlags_eq_of_visible (Flags.visible_editFinal w action)
  by_cases h : Level.ofFlags w < q.level
  · have hmask : Flags.finalBit &&& Flags.visibilityMask = 0 := by decide
    have hflag : Flags.finalBit &&& q.level.flag = 0 := by
      cases q.level <;> decide
    rw [raise_of_lt h, raise_of_lt (hlevel.symm ▸ h)]
    exact Flags.exchange_editFinal action hmask hflag
  · rw [raise_of_not_lt h, raise_of_not_lt (hlevel.symm ▸ h)]

/-- **Granting a request and then another one is granting the later one over the earlier one.** -/
theorem grant_grant (q r : Request) (w : Flags) :
    (r.grant (q.grant w).flags).flags = ((r.above q).grant w).flags := by
  have hraise : r.raise (q.raise w) = (r.above q).raise w := raise_raise rfl w
  show (r.raise ((q.raise w).editFinal q.final)).editFinal r.final =
    ((r.above q).raise w).editFinal (r.final.or q.final)
  rw [raise_editFinal, Flags.editFinal_editFinal, hraise]

/-! ## Putting requests together -/

/-- Asking twice is asking once. -/
theorem both_self (q? : Option Request) : both q? q? = q? := by
  obtain _ | ⟨level, final⟩ := q?
  · rfl
  · rw [both_some_some, above, Level.max_self, Option.or_self]

/-- A request that does nothing to the final flag but `action`. -/
def EditsOnlyBy (action : EditAction) (q? : Option Request) : Prop :=
  ∀ q, q? = some q → q.final = none ∨ q.final = some action

/-- What both ask for edits only by an action if each of them does. -/
theorem EditsOnlyBy.both {action : EditAction} {q? r? : Option Request} (hq : EditsOnlyBy action q?)
    (hr : EditsOnlyBy action r?) : EditsOnlyBy action (both q? r?) := by
  cases q? with
  | none => simpa using hr
  | some q =>
    cases r? with
    | none => simpa using hq
    | some r =>
      rintro s ⟨⟩
      show r.final.or q.final = none ∨ r.final.or q.final = some action
      rcases hr r rfl with hnone | hsome
      · rw [hnone, Option.none_or]
        exact hq q rfl
      · rw [hsome]
        exact .inr rfl

/-- **Where edits agree, the order of two requests does not matter**, whatever is asked for
later. -/
theorem both_left_comm {action : EditAction} {q? r? : Option Request} (hq : EditsOnlyBy action q?)
    (hr : EditsOnlyBy action r?) (s? : Option Request) :
    both q? (both r? s?) = both r? (both q? s?) := by
  cases q? with
  | none => simp
  | some q =>
    cases r? with
    | none => simp
    | some r =>
      have hlevel : max q.level r.level = max r.level q.level := Level.max_comm _ _
      have hfinal : r.final.or q.final = q.final.or r.final := by
        rcases hq q rfl with h | h <;> rcases hr r rfl with h' | h' <;> rw [h, h'] <;> rfl
      cases s? with
      | none => simp [above, hlevel, hfinal]
      | some s =>
        simp only [both_some_some, above, Level.max_left_comm q.level, Option.or_assoc, hfinal]

/-! ## Rulings -/

/-- What becomes of a flag word if something is asked for its element. With `levelOnly`, edits are
left out, as they are for a constructor. -/
def ruling (levelOnly : Bool) : (q? : Option Request) → (flags : Flags) → Override
  | none, flags => ⟨flags, none⟩
  | some q, flags => if levelOnly then ⟨q.raise flags, q.refusal? flags⟩ else q.grant flags

variable (levelOnly : Bool) (q? r? : Option Request) (w : Flags)

/-- **A ruling widens the flag word** that it is about. -/
theorem widened_ruling : w.Widened (ruling levelOnly q? w).flags := by
  cases q? with
  | none => exact .refl w
  | some q =>
    cases levelOnly with
    | true => exact q.widened_raise w
    | false => exact q.widened_grant w

/-- Where a ruling changes visibility, something was asked for and its level is there. -/
theorem ruling_visible_of_ne (h : (ruling levelOnly q? w).flags.visible ≠ w.visible) :
    ∃ q, q? = some q ∧ (ruling levelOnly q? w).flags.visible = q.level.flag := by
  cases q? with
  | none => exact absurd rfl h
  | some q =>
    cases levelOnly with
    | true => exact ⟨q, rfl, raise_visible_of_ne h⟩
    | false => exact ⟨q, rfl, grant_visible_of_ne h⟩

/-- **Two rulings in a row are the ruling on both requests.** -/
theorem ruling_both :
    (ruling levelOnly (both q? r?) w).flags =
      (ruling levelOnly r? (ruling levelOnly q? w).flags).flags := by
  cases q? with
  | none => rw [both_none_left]; rfl
  | some q =>
    cases r? with
    | none => rw [both_none_right]; rfl
    | some r =>
      cases levelOnly with
      | true => exact (raise_raise rfl w).symm
      | false => exact (grant_grant q r w).symm

/-- The level of a word after a ruling. -/
theorem ofFlags_ruling_some (q : Request) :
    Level.ofFlags (ruling levelOnly (some q) w).flags = max (Level.ofFlags w) q.level := by
  cases levelOnly with
  | true => exact ofFlags_raise q w
  | false =>
    rw [← ofFlags_raise q w]
    exact Flags.ofFlags_eq_of_visible (Flags.visible_editFinal _ q.final)

/-- **What was refused once is refused again**, and nothing else is. -/
theorem denied_ruling_ruling :
    (ruling levelOnly q? (ruling levelOnly q? w).flags).denied =
      (ruling levelOnly q? w).denied := by
  cases q? with
  | none => rfl
  | some q =>
    have hdenied : ∀ v, (ruling levelOnly (some q) v).denied = q.refusal? v := by
      intro v
      cases levelOnly <;> rfl
    have hlevel := ofFlags_ruling_some levelOnly w q
    rw [hdenied, hdenied, refusal?, refusal?, hlevel]
    by_cases h : Level.ofFlags w < q.level
    · have hnot : ¬q.level < Level.ofFlags w := Nat.lt_asymm h
      have hirrefl : ¬q.level < q.level := Nat.lt_irrefl q.level.rank
      rw [Level.max_of_lt h, if_neg hirrefl, if_neg hnot]
    · rw [Level.max_of_not_lt h]

/-- Raising a word does not make it private. -/
theorem private_of_raise {q : Request} {w : Flags} (h : (q.raise w).meets Flags.privateBit = true) :
    w.meets Flags.privateBit = true := by
  by_cases hlt : Level.ofFlags w < q.level
  · have hflag : q.level.flag &&& Flags.visibilityMask = q.level.flag ∧
        q.level.flag.visible = q.level.flag := by
      cases q.level <;> decide
    -- no level is below the private one
    have hwide : q.level ≠ .ownClass := by
      intro hq
      rw [hq] at hlt
      exact Nat.not_lt_zero _ hlt
    have hvisible : (q.raise w).visible = q.level.flag.visible := by
      rw [raise_of_lt hlt, hflag.2]
      exact Flags.exchange_and hflag.1
    rw [Flags.meets_eq_of_visible (by decide) hvisible] at h
    cases hq : q.level with
    | ownClass => exact absurd hq hwide
    | ownPackage => rw [hq] at h; cases h
    | subclasses => rw [hq] at h; cases h
    | everywhere => rw [hq] at h; cases h
  · rwa [raise_of_not_lt hlt] at h

/-- **No ruling makes anything private.** -/
theorem private_of_ruling
    (h : (ruling levelOnly q? w).flags.meets Flags.privateBit = true) :
    w.meets Flags.privateBit = true := by
  cases q? with
  | none => exact h
  | some q =>
    cases levelOnly with
    | true => exact private_of_raise h
    | false =>
      apply private_of_raise (q := q)
      rw [← Flags.meets_eq_of_visible (by decide) (q.visible_grant w)]
      exact h

end Request

end ClassAccess
