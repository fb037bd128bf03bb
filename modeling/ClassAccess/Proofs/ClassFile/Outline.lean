import ClassAccess.Proofs.ClassFile.Acceptance

/-!
# What rewriting leaves of a class

New flag words and new code take the places of the old ones. All else that is known about a class,
its outline, stays; and since the places stay, a file that is rewritten twice is what the second
rewriting alone would have made of it.

## Main definitions

* `ClassFile.outline` — a class without its bytes and its flag words.
* `Part.outline` — an element of a class without the same.

## Main results

* `ClassFile.outline_updated` — rewriting keeps the outline.
* `ClassFile.patches_updated` — it keeps the places that answers are written to.
* `ClassFile.rewritten_updated` — of two rewritings the later one counts.
-/

set_option autoImplicit false

namespace ClassAccess

section Lists

variable {α β γ δ : Type} {as : List α} {bs : List β}

/-- What is read off the first of two members that are put together is read off the members of the
first list. -/
theorem map_zipWith_of_length {f : α → β → γ} {g : γ → δ} {k : α → δ} (hg : ∀ a b, g (f a b) = k a)
    (h : bs.length = as.length) : (List.zipWith f as bs).map g = as.map k := by
  induction as generalizing bs with
  | nil => rfl
  | cons a as ih =>
    cases bs with
    | nil => cases h
    | cons b bs =>
      rw [List.zipWith_cons_cons, List.map_cons, List.map_cons, hg, ih (Nat.succ.inj h)]

/-- Pairs in which the first member was changed in a way that does not matter. -/
theorem map_zip_zipWith {f : α → β → α} {g : α → γ → δ} (hg : ∀ a b c, g (f a b) c = g a c)
    (h : bs.length = as.length) (cs : List γ) :
    ((List.zipWith f as bs).zip cs).map (fun p => g p.1 p.2) =
      (as.zip cs).map fun p => g p.1 p.2 := by
  induction as generalizing bs cs with
  | nil => rfl
  | cons a as ih =>
    cases bs with
    | nil => cases h
    | cons b bs =>
      cases cs with
      | nil => rfl
      | cons c cs =>
        rw [List.zipWith_cons_cons, List.zip_cons_cons, List.zip_cons_cons, List.map_cons,
          List.map_cons, hg, ih (Nat.succ.inj h)]

end Lists

namespace ClassFile

/-- **The outline of a class**: all that is known about it but its bytes and its flag words. -/
def outline (c : ClassFile) : ClassFile :=
  { c with
    bytes := []
    flags := 0
    fields := c.fields.map (Field.withFlags · 0)
    methods := c.methods.map (Method.withFlags · 0)
    innerClasses := c.innerClasses.map (InnerClass.withFlags · 0) }

end ClassFile

/-- The outline of an element of a class. -/
def Part.outline : Part → Part
  | whole c => whole c.outline
  | field f => field (f.withFlags 0)
  | method m => method (m.withFlags 0)
  | innerClass i => innerClass (i.withFlags 0)

namespace ClassFile

/-- The elements of an outline are the outlines of the elements. -/
theorem parts_outline (c : ClassFile) : c.outline.parts = c.parts.map Part.outline := by
  simp only [parts, outline, List.map_cons, List.map_append, List.map_map]
  rfl

variable {file : List UInt8} {c : ClassFile} {a a' : Answers}

/-- **Rewriting keeps the outline of a class.** -/
theorem outline_updated (ha : c.Fills a) : (c.updated a).outline = c.outline := by
  have hfields : (List.zipWith Field.withFlags c.fields a.fields).map (Field.withFlags · 0) =
      c.fields.map (Field.withFlags · 0) :=
    map_zipWith_of_length (fun _ _ => rfl) ha.fields
  have hmethods : (List.zipWith (fun m answer => m.withFlags answer.1) c.methods a.methods).map
      (Method.withFlags · 0) = c.methods.map (Method.withFlags · 0) :=
    map_zipWith_of_length (fun _ _ => rfl) ha.methods.length_eq.symm
  have hinner : (List.zipWith InnerClass.withFlags c.innerClasses a.innerClasses).map
      (InnerClass.withFlags · 0) = c.innerClasses.map (InnerClass.withFlags · 0) :=
    map_zipWith_of_length (fun _ _ => rfl) ha.innerClasses
  simp only [outline, updated, hfields, hmethods, hinner]

/-- Each element of a rewritten class has the outline of the element of the class. -/
theorem parts_outline_updated (ha : c.Fills a) :
    List.Forall₂ (fun p p' => p'.outline = p.outline) c.parts (c.updated a).parts := by
  have hparts : (c.updated a).parts.map Part.outline = c.parts.map Part.outline := by
    rw [← parts_outline, ← parts_outline, outline_updated ha]
  refine (List.forall₂_map_right_iff (f := Part.outline)
    (R := fun (p o : Part) => o = p.outline)).1 ?_
  rw [hparts, List.forall₂_map_right_iff]
  exact List.forall₂_same.2 fun p _ => rfl

/-- Rewriting keeps the places that answers are written to. -/
theorem patches_updated (ha : c.Fills a) : (c.updated a).patches a' = c.patches a' := by
  have hfields : ((List.zipWith Field.withFlags c.fields a.fields).zip a'.fields).map
        (fun p => (⟨p.1.flagsOffset, wordBytes p.2⟩ : Patch)) =
      (c.fields.zip a'.fields).map fun p => ⟨p.1.flagsOffset, wordBytes p.2⟩ :=
    map_zip_zipWith (f := Field.withFlags) (g := fun f w => (⟨f.flagsOffset, wordBytes w⟩ : Patch))
      (fun _ _ _ => rfl) ha.fields a'.fields
  have hmethods : ((List.zipWith (fun m answer => m.withFlags answer.1) c.methods a.methods).zip
        a'.methods).map (fun p => p.1.patches p.2) =
      (c.methods.zip a'.methods).map fun p => p.1.patches p.2 :=
    map_zip_zipWith (f := fun (m : Method) answer => m.withFlags answer.1)
      (g := fun m answer => m.patches answer) (fun _ _ _ => rfl)
      ha.methods.length_eq.symm a'.methods
  have hinner : ((List.zipWith InnerClass.withFlags c.innerClasses a.innerClasses).zip
        a'.innerClasses).map (fun p => (⟨p.1.flagsOffset, wordBytes p.2⟩ : Patch)) =
      (c.innerClasses.zip a'.innerClasses).map fun p => ⟨p.1.flagsOffset, wordBytes p.2⟩ :=
    map_zip_zipWith (f := InnerClass.withFlags)
      (g := fun i w => (⟨i.flagsOffset, wordBytes w⟩ : Patch)) (fun _ _ _ => rfl)
      ha.innerClasses a'.innerClasses
  simp only [patches, updated, List.flatMap_def, hfields, hmethods, hinner]

/-- **Of two rewritings of a file the later one counts.** -/
theorem rewritten_updated (h : read file = .ok c) (ha : c.Fills a) (ha' : c.Fills a') :
    (c.updated a).rewritten a' = c.rewritten a' := by
  have hbytes : (c.updated a).bytes = patched c.bytes (c.patches a) := c.rewritten_eq a
  have hsame := (perm_patches ha).trans (perm_patches ha').symm
  rw [rewritten_eq, rewritten_eq, patches_updated ha, hbytes, bytes_of_read h]
  exact patched_patched hsame (pairwise_patches h ha') fun p hp => patches_le h ha' hp

end ClassFile

end ClassAccess
