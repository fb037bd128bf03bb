import ClassAccess.Access.Flags

/-!
# Access levels

Who may reach a class, a field or a method. The four levels are ordered from the narrowest to the
widest, and each but one has a bit of its own in the flag word.

## Main definitions

* `Level` — the four levels, with their order.
* `Level.word`, `Level.ofWord?` — the word for a level in rule text, and back.
* `Level.ofFlags` — the level that a flag word shows.

## Main results

* `Level.ofWord?_eq_some_iff` — only the four words name a level, each its own.
-/

set_option autoImplicit false

namespace ClassAccess

/-- Who may reach an element, from the narrowest level to the widest. -/
inductive Level
  /-- The class that declares the element, `private` in rule text. -/
  | ownClass
  /-- The package of that class, `default` in rule text. -/
  | ownPackage
  /-- The package and the subclasses, `protected` in rule text. -/
  | subclasses
  /-- Every class, `public` in rule text. -/
  | everywhere
deriving DecidableEq, Repr, Inhabited

namespace Level

/-- All levels, narrowest first. -/
def all : List Level := [ownClass, ownPackage, subclasses, everywhere]

/-! ## Order -/

/-- The place of a level in the order. -/
def rank : Level → Nat
  | ownClass => 0
  | ownPackage => 1
  | subclasses => 2
  | everywhere => 3

instance : LE Level := ⟨fun a b => a.rank ≤ b.rank⟩

instance : LT Level := ⟨fun a b => a.rank < b.rank⟩

instance (a b : Level) : Decidable (a ≤ b) := inferInstanceAs (Decidable (a.rank ≤ b.rank))

instance (a b : Level) : Decidable (a < b) := inferInstanceAs (Decidable (a.rank < b.rank))

instance : Max Level := ⟨fun a b => if a ≤ b then b else a⟩

instance : Ord Level := ⟨fun a b => compare a.rank b.rank⟩

/-- Levels of one rank are equal. -/
theorem rank_injective {a b : Level} (h : a.rank = b.rank) : a = b := by
  cases a <;> cases b <;> first | rfl | cases h

/-- The wider of two levels has the greater rank. -/
theorem rank_max (a b : Level) : (max a b).rank = max a.rank b.rank := by
  cases a <;> cases b <;> rfl

/-! ## Text -/

/-- The word for the level in rule text. -/
def word : Level → String
  | ownClass => "private"
  | ownPackage => "default"
  | subclasses => "protected"
  | everywhere => "public"

/-- The level that a word of rule text names. -/
def ofWord? (w : String) : Option Level :=
  all.find? fun level => level.word = w

/-- Only the four words name a level, each its own. -/
theorem ofWord?_eq_some_iff {w : String} {level : Level} :
    ofWord? w = some level ↔ w = level.word := by
  constructor
  · intro h
    have := List.find?_some h
    simpa using (of_decide_eq_true this).symm
  · rintro rfl
    cases level <;> decide

/-! ## Flags -/

/-- The visibility bit of the level; the package level has none. -/
def flag : Level → Flags
  | ownClass => Flags.privateBit
  | ownPackage => 0
  | subclasses => Flags.protectedBit
  | everywhere => Flags.publicBit

/-- The level that a flag word shows: the widest one whose bit is set, or the package level. -/
def ofFlags (flags : Flags) : Level :=
  if flags.meets Flags.publicBit then everywhere
  else if flags.meets Flags.protectedBit then subclasses
  else if flags.meets Flags.privateBit then ownClass
  else ownPackage

end Level

end ClassAccess
