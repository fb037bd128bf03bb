import ClassAccess.Proofs.ClassFile.Acceptance
import ClassAccess.Widening.Pass

/-!
# What a pass over a class gives

The work on a class may fail, and it takes notes. For each part of the work there is a result, and
notes that are taken if the result is no error; the notes of parts add up.

## Main definitions

* `Gives` — the result of some work and its notes.

## Main results

* `Gives.bind`, `Gives.mapM` — work in a row.
* `Gives.always` — what some work gives is its result.
-/

set_option autoImplicit false

namespace ClassAccess

/-- **The work `x` gives a result**, and if that is no error it takes notes, whatever was noted
before. -/
def Gives {α : Type} (x : Pass α) :
    (result : Except WideningError α) → (notes : List Outcome) → Prop
  | .ok a, notes => ∀ before, x.run.run before = (.ok a, before ++ notes)
  | .error e, _ => ∀ before, (x.run.run before).1 = .error e

namespace Gives

variable {α β : Type} {notes notes' : List Outcome}

/-- No work takes no notes. -/
theorem pure (a : α) : Gives (Pure.pure a) (.ok a) [] := by
  intro before
  rw [List.append_nil]
  rfl

/-- A failure fails. -/
theorem throw (e : WideningError) : Gives (α := α) (MonadExcept.throw e) (.error e) [] :=
  fun _ => rfl

/-- Taking a note. -/
theorem note (outcome : Outcome) : Gives (Widening.note outcome) (.ok ()) [outcome] :=
  fun _ => rfl

/-- **Work in a row**: what comes after a failure is not done, and notes add up. -/
theorem bind {x : Pass α} {f : α → Pass β} {r : Except WideningError α}
    {g : α → Except WideningError β} (hx : Gives x r notes)
    (hf : ∀ a, r = .ok a → Gives (f a) (g a) notes') :
    Gives (x >>= f) (r >>= g) (notes ++ notes') := by
  cases r with
  | error e =>
    intro before
    have hxe := hx before
    rw [run_bind]
    cases hxb : x.run.run before with
    | mk result after =>
      rw [hxb] at hxe
      cases hxe
      rfl
  | ok a =>
    have hfa := hf a rfl
    show Gives (x >>= f) (g a) (notes ++ notes')
    cases hga : g a with
    | error e =>
      rw [hga] at hfa
      intro before
      rw [run_bind, hx before]
      exact hfa _
    | ok b =>
      rw [hga] at hfa
      intro before
      rw [run_bind, hx before, ← List.append_assoc]
      exact hfa _

/-- Work on the members of a list, one after the other. -/
theorem mapM {f : α → Pass β} {r : α → Except WideningError β} {n : α → List Outcome}
    {as : List α} (h : ∀ a ∈ as, Gives (f a) (r a) (n a)) :
    Gives (as.mapM f) (as.mapM r) (as.flatMap n) := by
  induction as with
  | nil => exact pure []
  | cons a as ih =>
    obtain ⟨ha, has⟩ := List.forall_mem_cons.1 h
    rw [List.mapM_cons, List.mapM_cons, List.flatMap_cons]
    refine ha.bind fun b _ => ?_
    rw [← List.append_nil (as.flatMap n)]
    exact (ih has).bind fun bs _ => pure (b :: bs)

/-- **What some work gives is its result.** -/
theorem always {x : Pass α} {p : α → Prop} {r : Except WideningError α} (h : Gives x r notes)
    (hp : ∀ a, r = .ok a → p a) : Always p x := by
  cases r with
  | ok a =>
    refine ⟨fun before => (.ok ⟨a, hp a rfl⟩, before ++ notes), ?_⟩
    funext before
    exact (h before).symm
  | error e =>
    refine ⟨fun before => (.error e, (x.run.run before).2), ?_⟩
    funext before
    exact Prod.ext (h before).symm rfl

end Gives

end ClassAccess
