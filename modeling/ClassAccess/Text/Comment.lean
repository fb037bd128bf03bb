/-!
# Comments and escaped hashes

A hash starts a comment that runs to the end of its line. A name that holds a hash is written with a
backslash before it; nothing else is escaped, and a backslash alone stands for itself.

## Main definitions

* `Text.escapeHash` — writes each hash with a backslash before it.
* `Text.scanComment` — cuts a line at its first bare hash and undoes the escape, one character at a
  time.
* `Text.stripComment` — the same with two shortcuts for lines that need no rebuilding.
-/

set_option autoImplicit false

namespace ClassAccess.Text

/-- The text with a backslash before each hash. -/
def escapeHash : List Char → List Char
  | [] => []
  | c :: cs => if c = '#' then '\\' :: '#' :: escapeHash cs else c :: escapeHash cs

/-- The part of a line before its first bare hash, in which a backslash and a hash read as a
hash. -/
def scanComment : List Char → List Char
  | '\\' :: '#' :: cs => '#' :: scanComment cs
  | c :: cs => if c = '#' then [] else c :: scanComment cs
  | [] => []

/-- Whether a backslash stands right before a hash. -/
def hasEscapedHash : List Char → Bool
  | '\\' :: '#' :: _ => true
  | _ :: cs => hasEscapedHash cs
  | [] => false

/-- The line without its comment. A line without a hash is its own answer, and one without an
escaped hash is cut at its first hash. -/
def stripComment (line : List Char) : List Char :=
  if !line.contains '#' then line
  else if !hasEscapedHash line then line.takeWhile (· ≠ '#')
  else scanComment line

end ClassAccess.Text
