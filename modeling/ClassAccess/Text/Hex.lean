/-!
# Hexadecimal numerals

Flag words, opcodes and magic numbers are shown in hexadecimal, padded with zeros to the width of
the word.
-/

set_option autoImplicit false

namespace ClassAccess.Text

/-- The numeral of `n` in lower-case hexadecimal with at least `width` digits, after `0x`. -/
def hex (width n : Nat) : String :=
  let digits := Nat.toDigits 16 n
  "0x" ++ String.ofList (List.replicate (width - digits.length) '0' ++ digits)

end ClassAccess.Text
