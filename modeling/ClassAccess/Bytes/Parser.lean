/-!
# Parsers

A parser takes something off a state, such as what lies ahead of a place in a byte string, and gives
back what it found, or it fails. The readers of class files and the decoders of caches are parsers,
with states and errors of their own.

## Main definitions

* `Parser` — a computation that moves on a state or fails.
* `Parser.many` — a parser that is run several times.

## Main results

* `Parser.bind_eq_ok_iff` — two parsers in a row.
-/

set_option autoImplicit false

namespace ClassAccess

/-- A computation that moves on a state or fails. -/
abbrev Parser (σ ε α : Type) := StateT σ (Except ε) α

namespace Parser

variable {σ ε α β : Type}

/-- The results of `n` runs of a parser. -/
def many (parser : Parser σ ε α) : (n : Nat) → Parser σ ε (List α)
  | 0 => pure []
  | n + 1 => do
    let a ← parser
    let rest ← many parser n
    return a :: rest

/-- What succeeds without taking anything stays where it is. -/
theorem pure_eq_ok_iff {a b : α} {s t : σ} :
    (pure a : Parser σ ε α) s = .ok (b, t) ↔ b = a ∧ t = s := by
  constructor
  · intro h
    cases h
    exact ⟨rfl, rfl⟩
  · rintro ⟨rfl, rfl⟩
    rfl

/-- A parser behind another one starts where that one stopped. -/
theorem bind_apply (p : Parser σ ε α) (f : α → Parser σ ε β) (s : σ) :
    (p >>= f) s = (p s).bind fun found => f found.1 found.2 := rfl

/-- **Two parsers in a row**: the second one goes on where the first one stopped. -/
theorem bind_eq_ok_iff {p : Parser σ ε α} {f : α → Parser σ ε β} {s t : σ} {b : β} :
    (p >>= f) s = .ok (b, t) ↔ ∃ a s', p s = .ok (a, s') ∧ f a s' = .ok (b, t) := by
  rw [bind_apply]
  cases hp : p s with
  | error e =>
    constructor
    · intro h
      cases h
    · rintro ⟨a, s', h, -⟩
      cases h
  | ok found =>
    constructor
    · intro h
      exact ⟨found.1, found.2, rfl, h⟩
    · rintro ⟨a, s', h, hf⟩
      cases h
      exact hf

/-- A failure does not succeed. -/
theorem throw_ne_ok {e : ε} {s t : σ} {a : α} : (throw e : Parser σ ε α) s ≠ .ok (a, t) := nofun

end Parser

end ClassAccess
