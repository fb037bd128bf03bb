/-!
# Errors in rule text

Why a line is no rule, and how that is told.

## Main definitions

* `ParseFault` — what is wrong with a line.
* `ParseError` — the fault with the number and the text of its line.
* `ParseError.reason`, `ParseError.message` — the wording.
-/

set_option autoImplicit false

namespace ClassAccess

/-- What is wrong with a line of rule text. -/
inductive ParseFault
  /-- No level has this word. -/
  | invalidLevel (word : String)
  /-- No modifier has this word. -/
  | invalidModifier (word : String)
  /-- An edit starts with this character, which is no sign. -/
  | invalidAction (sign : Char)
  /-- The member has an opening parenthesis and none that closes it. -/
  | malformedDescriptor (member : String)
  /-- The line has this many words. -/
  | wordCount (count : Nat)
  /-- The blank `blank`, which is no separator, stands after the part `before` of the line. -/
  | strayBlank (before : String) (blank : Char)
deriving DecidableEq, Repr

/-- A line that is no rule. -/
structure ParseError where
  /-- The number of the line, from one. -/
  line : Nat
  /-- The line without its comment and the blanks at its ends. -/
  text : String
  /-- What is wrong with it. -/
  fault : ParseFault
deriving DecidableEq, Repr

namespace ParseError

/-- A text of `n` spaces. -/
def spaces (n : Nat) : String := String.ofList (List.replicate n ' ')

/-- How many columns stand before `blank` on its line, where they hold `before`. A column is a
character if the blank is written with one byte, and a byte if it is written with more. -/
def columnsBefore (before : List Char) (blank : Char) : Nat :=
  if blank.utf8Size = 1 then before.length else (String.ofList before).utf8ByteSize

/-- Points at `blank`, which stands after `before` in `text`. In a text of one line the mark stands
as many columns in as `before` has bytes; in a longer text line and column are given as numbers, and
the mark stands below the line in question. -/
def pointAt (before : String) (blank : Char) (text : String) : String :=
  if text.toList.contains '\n' then
    let onLine := (before.toList.reverse.takeWhile (· ≠ '\n')).reverse
    let behind := (text.toList.drop before.length).takeWhile (· ≠ '\n')
    let content := String.ofList (onLine ++ behind)
    let number := toString (before.toList.count '\n' + 1)
    let columns := columnsBefore onLine blank
    let gutter := spaces number.length
    s!"parse error at line {number}, column {columns + 1}\n{gutter} |\n" ++
      s!"{number} | {content}\n{gutter} | {spaces columns}^\n"
  else s!"{text}\n{spaces before.utf8ByteSize}^\n"

/-- The fault in words. -/
def reason (e : ParseError) : String :=
  match e.fault with
  | .invalidLevel word => s!"invalid access level '{word}'"
  | .invalidModifier word => s!"invalid access modifier '{word}'"
  | .invalidAction sign => s!"invalid access modifier action '{sign}', expected '+' or '-'"
  | .malformedDescriptor member =>
    s!"malformed method descriptor '{member}': '(' without matching ')'"
  | .wordCount count => s!"expected 2 or 3 tokens, found {count}"
  | .strayBlank before blank => pointAt before blank e.text

/-- The whole error in words. -/
def message (e : ParseError) : String :=
  s!"parse error on line {e.line}: {e.reason} in '{e.text}'"

end ParseError

end ClassAccess
