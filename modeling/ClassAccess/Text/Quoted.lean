import ClassAccess.Text.Unseen

/-!
# Quoted text

A text in double quotes, on one line and without characters that cannot be seen: quotes and
backslashes have a backslash before them, the common control characters have letters, and any other
character without a shape of its own is given by its number.

## Main definitions

* `Text.quote` — a text in quotes.
* `Text.quoteOption` — an optional text, the word None when it is absent.
-/

set_option autoImplicit false

namespace ClassAccess.Text

/-- How one character stands inside quotes. -/
def quoteChar (c : Char) : List Char :=
  if c = '\x00' then ['\\', '0']
  else if c = '\t' then ['\\', 't']
  else if c = '\r' then ['\\', 'r']
  else if c = '\n' then ['\\', 'n']
  else if c = '"' || c = '\\' then ['\\', c]
  else if isUnseen c then ['\\', 'u', '\x7b'] ++ Nat.toDigits 16 c.toNat ++ ['\x7d']
  else [c]

/-- The text in double quotes. -/
def quote (text : String) : String :=
  String.ofList ('"' :: text.toList.flatMap quoteChar ++ ['"'])

/-- An optional text: the word None, or the quoted text in parentheses after the word Some. -/
def quoteOption : Option String → String
  | none => "None"
  | some text => "Some(" ++ quote text ++ ")"

end ClassAccess.Text
