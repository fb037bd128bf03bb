import ClassAccess.Rule.Basic

/-!
# The access policy

What becomes of a flag word under a rule. Access is never narrowed: a rule that asks for less than
an element has leaves its visibility bits alone, and the refusal is reported. Edits are carried out
whatever the levels are.

## Main definitions

* `Override` — the new flags, and the refusal if there was one.
* `overrideLevel` — the visibility half of the policy.
* `overrideAccess` — the whole policy.
-/

set_option autoImplicit false

namespace ClassAccess

/-- A refused request to narrow access. -/
structure Downgrade where
  /-- The level that the element has. -/
  current : Level
  /-- The narrower level that was asked for. -/
  requested : Level
deriving DecidableEq, Repr, Inhabited

/-- What the policy decides about one flag word. -/
structure Override where
  /-- The new flags. -/
  flags : Flags
  /-- The refusal, if the rule asked for less access than there is. -/
  denied : Option Downgrade
deriving DecidableEq, Repr, Inhabited

/-- The flag word with its visibility raised to `requested`. A level that is not above the current
one leaves the word as it is. -/
def overrideLevel (flags : Flags) (requested : Level) : Override :=
  let current := Level.ofFlags flags
  if requested ≤ current then
    ⟨flags, if requested < current then some ⟨current, requested⟩ else none⟩
  else ⟨(flags &&& ~~~Flags.visibilityMask) ||| requested.flag, none⟩

/-- The flag word under a rule, if there is one: its visibility raised, then its flags edited. -/
def overrideAccess (flags : Flags) : Option Rule → Override
  | none => ⟨flags, none⟩
  | some rule =>
    let raised := overrideLevel flags rule.level
    ⟨Edits.applyList rule.edits.toList raised.flags, raised.denied⟩

/-- The new flags alone. -/
def newFlags (flags : Flags) (rule : Option Rule) : Flags :=
  (overrideAccess flags rule).flags

end ClassAccess
