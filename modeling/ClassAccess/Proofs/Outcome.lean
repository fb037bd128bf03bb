import Mathlib.Data.List.Forall2

/-!
# Outcomes of steps

What is worked on in steps has an outcome if each of the steps has one, and otherwise the error of
the first step that has none. The same goes for the members of a list that are worked on one by one.

## Main results

* `bind_eq_ok_iff`, `bind_eq_error_iff` — two steps.
* `mapM_eq_ok_iff`, `mapM_eq_error_iff` — the members of a list.
-/

set_option autoImplicit false

namespace ClassAccess

/-! ## Two steps -/

/-- An outcome of two steps. -/
theorem bind_eq_ok_iff {α β ε : Type} {x : Except ε α} {f : α → Except ε β} {b : β} :
    x >>= f = .ok b ↔ ∃ a, x = .ok a ∧ f a = .ok b := by
  cases x with
  | error e => exact ⟨nofun, nofun⟩
  | ok a =>
    constructor
    · exact fun h => ⟨a, rfl, h⟩
    · rintro ⟨_, ⟨⟩, h⟩
      exact h

/-- An outcome of two steps is an error if one of the steps is. -/
theorem bind_eq_error_iff {α β ε : Type} {x : Except ε α} {f : α → Except ε β} {e : ε} :
    x >>= f = .error e ↔ x = .error e ∨ ∃ a, x = .ok a ∧ f a = .error e := by
  cases x with
  | error e' =>
    constructor
    · intro h
      cases h
      exact .inl rfl
    · rintro (h | ⟨a, h, -⟩)
      · cases h
        rfl
      · cases h
  | ok a =>
    constructor
    · exact fun h => .inr ⟨a, rfl, h⟩
    · rintro (h | ⟨_, ⟨⟩, h⟩)
      · cases h
      · exact h

/-- Two steps fail if the first one does. -/
theorem bind_eq_error_of_error {α β ε : Type} {x : Except ε α} {f : α → Except ε β} {e : ε}
    (h : x = .error e) : x >>= f = .error e :=
  bind_eq_error_iff.2 (.inl h)

/-- Two steps fail if the second one does on the outcome of the first. -/
theorem bind_eq_error_of_ok {α β ε : Type} {x : Except ε α} {f : α → Except ε β} {a : α} {e : ε}
    (h : x = .ok a) (hf : f a = .error e) : x >>= f = .error e :=
  bind_eq_error_iff.2 (.inr ⟨a, h, hf⟩)

/-- An outcome that is made from another one. -/
theorem map_eq_ok_iff {α β ε : Type} {f : α → β} {x : Except ε α} {b : β} :
    f <$> x = .ok b ↔ ∃ a, x = .ok a ∧ f a = b := by
  cases x with
  | error e =>
    constructor
    · intro h
      cases h
    · rintro ⟨a, h, -⟩
      cases h
  | ok a =>
    constructor
    · exact fun h => ⟨a, rfl, Except.ok.inj h⟩
    · rintro ⟨_, h, rfl⟩
      cases h
      rfl

/-- What is made from another outcome has the error of that one. -/
theorem map_eq_error_iff {α β ε : Type} {f : α → β} {x : Except ε α} {e : ε} :
    f <$> x = .error e ↔ x = .error e := by
  cases x with
  | error e' =>
    exact ⟨fun h => congrArg _ (Except.error.inj h), fun h => congrArg _ (Except.error.inj h)⟩
  | ok a => exact ⟨nofun, nofun⟩

/-- An outcome is not changed where its error is told in another way. -/
theorem mapError_eq_ok_iff {α ε ε' : Type} {f : ε → ε'} {x : Except ε α} {a : α} :
    x.mapError f = .ok a ↔ x = .ok a := by
  cases x with
  | error e => exact ⟨nofun, nofun⟩
  | ok b => exact ⟨fun h => congrArg _ (Except.ok.inj h), fun h => congrArg _ (Except.ok.inj h)⟩

/-- Only an error is told in another way. -/
theorem mapError_eq_error_iff {α ε ε' : Type} {f : ε → ε'} {x : Except ε α} {e' : ε'} :
    x.mapError f = .error e' ↔ ∃ e, x = .error e ∧ f e = e' := by
  cases x with
  | error e =>
    constructor
    · exact fun h => ⟨e, rfl, Except.error.inj h⟩
    · rintro ⟨_, h, rfl⟩
      cases h
      rfl
  | ok a =>
    refine ⟨nofun, ?_⟩
    rintro ⟨e, h, -⟩
    cases h

/-- Where there is no error, none is told in another way. -/
theorem mapError_pure {α ε ε' : Type} (g : ε → ε') (a : α) :
    (pure a : Except ε α).mapError g = pure a := rfl

/-- The error of two steps is told in another way if those of both are. -/
theorem mapError_bind {α β ε ε' : Type} (g : ε → ε') (x : Except ε α) (f : α → Except ε β) :
    (x >>= f).mapError g = x.mapError g >>= fun a => (f a).mapError g := by
  cases x <;> rfl

/-! ## The members of a list -/

/-- All members of a list are worked on if each of them can be. -/
theorem mapM_eq_ok_iff {α β ε : Type} {f : α → Except ε β} {as : List α} {bs : List β} :
    as.mapM f = .ok bs ↔ List.Forall₂ (fun a b => f a = .ok b) as bs := by
  induction as generalizing bs with
  | nil =>
    constructor
    · intro h
      cases h
      exact .nil
    · rintro ⟨⟩
      rfl
  | cons a as ih =>
    rw [List.mapM_cons, List.forall₂_cons_left_iff]
    cases ha : f a with
    | error e => exact ⟨nofun, nofun⟩
    | ok b =>
      cases has : as.mapM f with
      | error e =>
        refine ⟨nofun, ?_⟩
        rintro ⟨b', bs', -, hbs, -⟩
        rw [ih.2 hbs] at has
        cases has
      | ok bs' =>
        constructor
        · intro h
          cases h
          exact ⟨b, bs', rfl, ih.1 has, rfl⟩
        · rintro ⟨b', bs'', hb, hbs, rfl⟩
          cases hb
          rw [ih.2 hbs] at has
          cases has
          rfl

/-- All members of a list can be worked on exactly if each of them can be. -/
theorem exists_mapM_eq_ok_iff {α β ε : Type} {f : α → Except ε β} {as : List α} :
    (∃ bs, as.mapM f = .ok bs) ↔ ∀ a ∈ as, ∃ b, f a = .ok b := by
  simp only [mapM_eq_ok_iff]
  induction as with
  | nil => exact ⟨fun _ => nofun, fun _ => ⟨[], .nil⟩⟩
  | cons a as ih =>
    rw [List.forall_mem_cons, ← ih]
    constructor
    · rintro ⟨_, h⟩
      cases h with
      | cons hb hbs => exact ⟨⟨_, hb⟩, _, hbs⟩
    · rintro ⟨⟨b, hb⟩, bs, hbs⟩
      exact ⟨b :: bs, .cons hb hbs⟩

/-- **Work on a list fails with its first member that fails.** -/
theorem mapM_eq_error_iff {α β ε : Type} {f : α → Except ε β} {as : List α} {e : ε} :
    as.mapM f = .error e ↔
      ∃ before a after, as = before ++ a :: after ∧ (∀ b ∈ before, ∃ x, f b = .ok x) ∧
        f a = .error e := by
  induction as with
  | nil =>
    refine ⟨nofun, ?_⟩
    rintro ⟨before, a, after, h, -⟩
    cases before <;> cases h
  | cons a as ih =>
    rw [List.mapM_cons]
    cases ha : f a with
    | error e' =>
      constructor
      · intro h
        cases h
        exact ⟨[], a, as, rfl, nofun, ha⟩
      · rintro ⟨_ | ⟨b, before⟩, a', after, h, hbefore, ha'⟩
        · cases h
          cases ha.symm.trans ha'
          rfl
        · cases h
          obtain ⟨x, hx⟩ := hbefore _ List.mem_cons_self
          rw [ha] at hx
          cases hx
    | ok b =>
      have hrest : (do let b ← (.ok b : Except ε β); let bs ← as.mapM f; return b :: bs) =
          .error e ↔ as.mapM f = .error e := by
        cases as.mapM f with
        | error e' => exact ⟨fun h => h, fun h => h⟩
        | ok bs => exact ⟨nofun, nofun⟩
      rw [hrest, ih]
      constructor
      · rintro ⟨before, a', after, rfl, hbefore, ha'⟩
        refine ⟨a :: before, a', after, rfl, List.forall_mem_cons.2 ⟨⟨b, ha⟩, hbefore⟩, ha'⟩
      · rintro ⟨_ | ⟨a'', before⟩, a', after, h, hbefore, ha'⟩
        · cases h
          rw [ha] at ha'
          cases ha'
        · cases h
          exact ⟨before, a', after, rfl, (List.forall_mem_cons.1 hbefore).2, ha'⟩

/-- Members of a list are worked on alike where the work is the same. -/
theorem mapM_congr {α β ε : Type} {f g : α → Except ε β} {as : List α} (h : ∀ a ∈ as, f a = g a) :
    as.mapM f = as.mapM g := by
  have hmap : ∀ k : α → Except ε β, as.mapM k = (as.map k).mapM id :=
    fun k => (List.mapM_map (f := k) (g := id)).symm
  rw [hmap f, hmap g, List.map_congr_left h]

/-- What each outcome has that a member of a list may have. -/
theorem forall₂_of_mapM {α β ε : Type} {f : α → Except ε β} {as : List α} {bs : List β}
    {p : α → β → Prop} (h : as.mapM f = .ok bs) (hp : ∀ a ∈ as, ∀ b, f a = .ok b → p a b) :
    List.Forall₂ p as bs := by
  refine List.forall₂_iff_zip.2 ⟨(mapM_eq_ok_iff.1 h).length_eq, fun {a b} hab => ?_⟩
  exact hp a (List.of_mem_zip hab).1 b ((List.forall₂_iff_zip.1 (mapM_eq_ok_iff.1 h)).2 hab)

end ClassAccess
