import ClassAccess.ClassFile.ConstantPool
import ClassAccess.Proofs.Outcome

/-!
# Following references

A reference through the constant pool is a chain of slots. Following it succeeds exactly if each
slot of the chain holds an entry of its kind, and otherwise it fails at the first slot that does
not.

## Main definitions

* `ConstantPool.RefersTo` — a reference to a method of a class, slot by slot.
* `ConstantPool.BreaksAt` — the slot where following a reference to a method breaks off.

## Main results

* `ConstantPool.utf8_eq_ok_iff`, `ConstantPool.className_eq_ok_iff` — texts and names of classes.
* `ConstantPool.methodRef_eq_ok_iff` — following a reference finds what it refers to.
* `ConstantPool.methodRef_eq_error_iff` — following a reference fails where it breaks off.
-/

set_option autoImplicit false

namespace ClassAccess

/-! ## References that lead somewhere -/

namespace ConstantPool

variable {pool : ConstantPool} {index : UInt16} {e : ClassFileError}

/-- Slot `index` refers to the method `name` with a descriptor of the class `owner`, and not to a
method of an interface. -/
def RefersTo (pool : ConstantPool) (index : UInt16) (owner name descriptor : String) : Prop :=
  ∃ o t u n d, pool.get? index = some (.methodRef o t) ∧
    pool.get? o = some (.classRef u) ∧ pool.get? u = some (.utf8 owner) ∧
    pool.get? t = some (.nameAndType n d) ∧ pool.get? n = some (.utf8 name) ∧
    pool.get? d = some (.utf8 descriptor)

/-- The text in a slot. -/
theorem utf8_eq_ok_iff {text : String} :
    pool.utf8 index = .ok text ↔ pool.get? index = some (.utf8 text) := by
  rw [utf8]
  split
  · next hget => simp [hget]
  · next hget => exact ⟨nofun, fun h => (hget text h).elim⟩

/-- The name of the class in a slot. -/
theorem className_eq_ok_iff {name : String} :
    pool.className index = .ok name ↔
      ∃ u, pool.get? index = some (.classRef u) ∧ pool.get? u = some (.utf8 name) := by
  constructor
  · intro h
    rw [className] at h
    split at h
    · next u hget => exact ⟨u, hget, utf8_eq_ok_iff.1 h⟩
    · cases h
  · rintro ⟨u, hget, hname⟩
    rw [className, hget]
    exact utf8_eq_ok_iff.2 hname

/-- The slots that a reference to a method of a class leads to. -/
theorem methodParts_eq_ok_iff {o t : UInt16} :
    pool.methodParts index = .ok (o, t, false) ↔ pool.get? index = some (.methodRef o t) := by
  rw [methodParts]
  split
  · next hget => simp [hget]
  · next hget => simp [hget]
  · next hget _ => exact ⟨nofun, fun h => (hget o t h).elim⟩

/-- The slots that a name-and-type entry leads to. -/
theorem nameAndTypeParts_eq_ok_iff {n d : UInt16} :
    pool.nameAndTypeParts index = .ok (n, d) ↔ pool.get? index = some (.nameAndType n d) := by
  rw [nameAndTypeParts]
  split
  · next hget => simp [hget]
  · next hget => exact ⟨nofun, fun h => (hget n d h).elim⟩

/-- **Following a reference finds what it refers to.** -/
theorem methodRef_eq_ok_iff {owner name descriptor : String} :
    pool.methodRef index = .ok ⟨owner, name, descriptor, false⟩ ↔
      pool.RefersTo index owner name descriptor := by
  constructor
  · intro h
    rw [methodRef] at h
    obtain ⟨⟨o, t, isInterface⟩, hparts, h⟩ := bind_eq_ok_iff.1 h
    obtain ⟨⟨n, d⟩, htype, h⟩ := bind_eq_ok_iff.1 h
    obtain ⟨owner', howner, h⟩ := bind_eq_ok_iff.1 h
    obtain ⟨name', hname, h⟩ := bind_eq_ok_iff.1 h
    obtain ⟨descriptor', hdescriptor, h⟩ := bind_eq_ok_iff.1 h
    cases h
    obtain ⟨u, hclass, howner⟩ := className_eq_ok_iff.1 howner
    exact ⟨o, t, u, n, d, methodParts_eq_ok_iff.1 hparts, hclass, howner,
      nameAndTypeParts_eq_ok_iff.1 htype, utf8_eq_ok_iff.1 hname, utf8_eq_ok_iff.1 hdescriptor⟩
  · rintro ⟨o, t, u, n, d, hparts, hclass, howner, htype, hname, hdescriptor⟩
    rw [methodRef]
    refine bind_eq_ok_iff.2 ⟨_, methodParts_eq_ok_iff.2 hparts, ?_⟩
    refine bind_eq_ok_iff.2 ⟨_, nameAndTypeParts_eq_ok_iff.2 htype, ?_⟩
    refine bind_eq_ok_iff.2 ⟨_, className_eq_ok_iff.2 ⟨u, hclass, howner⟩, ?_⟩
    refine bind_eq_ok_iff.2 ⟨_, utf8_eq_ok_iff.2 hname, ?_⟩
    exact bind_eq_ok_iff.2 ⟨_, utf8_eq_ok_iff.2 hdescriptor, rfl⟩

/-! ## References that break off -/

/-- Slot `index` holds a reference to a method of a class or of an interface, by the slots of its
owner and of its name and type. -/
def Refers (pool : ConstantPool) (index owner nameAndType : UInt16) : Prop :=
  pool.get? index = some (.methodRef owner nameAndType) ∨
    pool.get? index = some (.interfaceMethodRef owner nameAndType)

/-- Following the reference to a method in slot `index` breaks off at `slot`, which should hold an
entry of the kind `kind` and does not. The links are followed in the order of the constructors. -/
inductive BreaksAt (pool : ConstantPool) (index : UInt16) : (slot : UInt16) → ConstantKind → Prop
  /-- The slot itself holds no reference to a method. -/
  | reference (h : ∀ o t, ¬pool.Refers index o t) : BreaksAt pool index index .methodRef
  /-- The reference leads to no name with a descriptor. -/
  | nameAndType {o t : UInt16} (h : pool.Refers index o t)
      (ht : ∀ n d, pool.get? t ≠ some (.nameAndType n d)) : BreaksAt pool index t .nameAndType
  /-- The reference leads to no class. -/
  | owner {o t n d : UInt16} (h : pool.Refers index o t)
      (ht : pool.get? t = some (.nameAndType n d)) (ho : ∀ u, pool.get? o ≠ some (.classRef u)) :
      BreaksAt pool index o .classRef
  /-- The class has no name. -/
  | ownerName {o t n d u : UInt16} (h : pool.Refers index o t)
      (ht : pool.get? t = some (.nameAndType n d)) (ho : pool.get? o = some (.classRef u))
      (hu : ∀ text, pool.get? u ≠ some (.utf8 text)) : BreaksAt pool index u .utf8
  /-- The method has no name. -/
  | name {o t n d : UInt16} {owner : String} (h : pool.Refers index o t)
      (ht : pool.get? t = some (.nameAndType n d)) (ho : pool.className o = .ok owner)
      (hn : ∀ text, pool.get? n ≠ some (.utf8 text)) : BreaksAt pool index n .utf8
  /-- The method has no descriptor. -/
  | descriptor {o t n d : UInt16} {owner name : String} (h : pool.Refers index o t)
      (ht : pool.get? t = some (.nameAndType n d)) (ho : pool.className o = .ok owner)
      (hn : pool.get? n = some (.utf8 name)) (hd : ∀ text, pool.get? d ≠ some (.utf8 text)) :
      BreaksAt pool index d .utf8

/-- A slot that holds no text. -/
theorem utf8_eq_error_iff :
    pool.utf8 index = .error e ↔
      (∀ text, pool.get? index ≠ some (.utf8 text)) ∧ e = .badConstantIndex index .utf8 := by
  rw [utf8]
  split
  · next text hget => simp [hget]
  · next hget =>
    rw [Except.error.injEq]
    exact ⟨fun h => ⟨hget, h.symm⟩, fun h => h.2.symm⟩

/-- A slot that leads to no name of a class: it holds no class, or the class has no name. -/
theorem className_eq_error_iff :
    pool.className index = .error e ↔
      ((∀ u, pool.get? index ≠ some (.classRef u)) ∧ e = .badConstantIndex index .classRef) ∨
        ∃ u, pool.get? index = some (.classRef u) ∧ pool.utf8 u = .error e := by
  rw [className]
  split
  · next u hget => simp [hget]
  · next hget =>
    rw [Except.error.injEq]
    constructor
    · exact fun h => .inl ⟨hget, h.symm⟩
    · rintro (h | ⟨u, hu, -⟩)
      · exact h.2.symm
      · exact absurd hu (hget u)

/-- The slots that a reference to a method leads to. -/
theorem exists_methodParts_iff {o t : UInt16} :
    (∃ isInterface, pool.methodParts index = .ok (o, t, isInterface)) ↔ pool.Refers index o t := by
  rw [methodParts, Refers]
  split
  · next hget => simp [hget]
  · next hget => simp [hget]
  · next hmethod hinterface =>
    constructor
    · rintro ⟨isInterface, h⟩
      cases h
    · rintro (h | h)
      · exact absurd h (hmethod o t)
      · exact absurd h (hinterface o t)

/-- A slot that holds no reference to a method. -/
theorem methodParts_eq_error_iff :
    pool.methodParts index = .error e ↔
      (∀ o t, ¬pool.Refers index o t) ∧ e = .badConstantIndex index .methodRef := by
  rw [methodParts]
  split
  · next hget => simp [Refers, hget]
  · next hget => simp [Refers, hget]
  · next hmethod hinterface =>
    rw [Except.error.injEq]
    constructor
    · intro h
      refine ⟨fun o t hrefers => ?_, h.symm⟩
      rcases hrefers with hrefers | hrefers
      · exact hmethod o t hrefers
      · exact hinterface o t hrefers
    · exact fun h => h.2.symm

/-- A slot that holds no name with a descriptor. -/
theorem nameAndTypeParts_eq_error_iff :
    pool.nameAndTypeParts index = .error e ↔
      (∀ n d, pool.get? index ≠ some (.nameAndType n d)) ∧
        e = .badConstantIndex index .nameAndType := by
  rw [nameAndTypeParts]
  split
  · next hget => simp [hget]
  · next hget =>
    rw [Except.error.injEq]
    exact ⟨fun h => ⟨hget, h.symm⟩, fun h => h.2.symm⟩

/-- What fails for the slots of a reference to a method, of whatever kind, fails once these are
found. -/
theorem methodParts_bind_eq_error {α : Type} {o t : UInt16}
    {f : UInt16 × UInt16 × Bool → Except ClassFileError α} (h : pool.Refers index o t)
    (hf : ∀ isInterface, f (o, t, isInterface) = .error e) :
    pool.methodParts index >>= f = .error e := by
  obtain ⟨isInterface, hparts⟩ := exists_methodParts_iff.2 h
  exact bind_eq_error_of_ok hparts (hf isInterface)

/-- **Following a reference fails where it breaks off**, and in no other way. -/
theorem methodRef_eq_error_iff :
    pool.methodRef index = .error e ↔
      ∃ slot kind, pool.BreaksAt index slot kind ∧ e = .badConstantIndex slot kind := by
  rw [methodRef]
  constructor
  · intro h
    rcases bind_eq_error_iff.1 h with h | ⟨⟨o, t, isInterface⟩, hparts, h⟩
    · obtain ⟨hrefers, rfl⟩ := methodParts_eq_error_iff.1 h
      exact ⟨_, _, .reference hrefers, rfl⟩
    have hrefers : pool.Refers index o t := exists_methodParts_iff.1 ⟨_, hparts⟩
    rcases bind_eq_error_iff.1 h with h | ⟨⟨n, d⟩, htype, h⟩
    · obtain ⟨ht, rfl⟩ := nameAndTypeParts_eq_error_iff.1 h
      exact ⟨_, _, .nameAndType hrefers ht, rfl⟩
    have ht := nameAndTypeParts_eq_ok_iff.1 htype
    rcases bind_eq_error_iff.1 h with h | ⟨owner, ho, h⟩
    · rcases className_eq_error_iff.1 h with ⟨ho, rfl⟩ | ⟨u, ho, h⟩
      · exact ⟨_, _, .owner hrefers ht ho, rfl⟩
      · obtain ⟨hu, rfl⟩ := utf8_eq_error_iff.1 h
        exact ⟨_, _, .ownerName hrefers ht ho hu, rfl⟩
    rcases bind_eq_error_iff.1 h with h | ⟨name, hname, h⟩
    · obtain ⟨hn, rfl⟩ := utf8_eq_error_iff.1 h
      exact ⟨_, _, .name hrefers ht ho hn, rfl⟩
    have hn := utf8_eq_ok_iff.1 hname
    rcases bind_eq_error_iff.1 h with h | ⟨descriptor, hdescriptor, h⟩
    · obtain ⟨hd, rfl⟩ := utf8_eq_error_iff.1 h
      exact ⟨_, _, .descriptor hrefers ht ho hn hd, rfl⟩
    · cases h
  · rintro ⟨slot, kind, hbreaks, rfl⟩
    cases hbreaks with
    | reference h => exact bind_eq_error_of_error (methodParts_eq_error_iff.2 ⟨h, rfl⟩)
    | nameAndType h ht =>
      refine methodParts_bind_eq_error h fun _ => ?_
      exact bind_eq_error_of_error (nameAndTypeParts_eq_error_iff.2 ⟨ht, rfl⟩)
    | owner h ht ho =>
      refine methodParts_bind_eq_error h fun _ => ?_
      refine bind_eq_error_of_ok (nameAndTypeParts_eq_ok_iff.2 ht) ?_
      exact bind_eq_error_of_error (className_eq_error_iff.2 (.inl ⟨ho, rfl⟩))
    | ownerName h ht ho hu =>
      have hname := className_eq_error_iff.2 (.inr ⟨_, ho, utf8_eq_error_iff.2 ⟨hu, rfl⟩⟩)
      refine methodParts_bind_eq_error h fun _ => ?_
      exact bind_eq_error_of_ok (nameAndTypeParts_eq_ok_iff.2 ht) (bind_eq_error_of_error hname)
    | name h ht ho hn =>
      refine methodParts_bind_eq_error h fun _ => ?_
      refine bind_eq_error_of_ok (nameAndTypeParts_eq_ok_iff.2 ht) (bind_eq_error_of_ok ho ?_)
      exact bind_eq_error_of_error (utf8_eq_error_iff.2 ⟨hn, rfl⟩)
    | descriptor h ht ho hn hd =>
      refine methodParts_bind_eq_error h fun _ => ?_
      refine bind_eq_error_of_ok (nameAndTypeParts_eq_ok_iff.2 ht) (bind_eq_error_of_ok ho ?_)
      refine bind_eq_error_of_ok (utf8_eq_ok_iff.2 hn) ?_
      exact bind_eq_error_of_error (utf8_eq_error_iff.2 ⟨hd, rfl⟩)

end ConstantPool

end ClassAccess
