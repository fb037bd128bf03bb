/-!
# Lines

A text is cut into lines at its line feeds. One carriage return right before a line feed belongs to
the end of the line; what follows the last line feed is a line of its own unless it is empty. The
same rule serves for characters and for bytes.
-/

set_option autoImplicit false

namespace ClassAccess.Text

variable {α : Type} [DecidableEq α]

/-- The lines of a text over any alphabet that has a carriage return `cr` and a line feed `lf`. -/
def splitLines (cr lf : α) : List α → List (List α)
  | [] => []
  | c :: cs =>
    if c = lf then [] :: splitLines cr lf cs
    else if c = cr ∧ cs.head? = some lf then splitLines cr lf cs
    else match splitLines cr lf cs with
      | [] => [[c]]
      | line :: rest => (c :: line) :: rest

/-- The lines of a text. -/
def lines (text : String) : List String :=
  (splitLines '\r' '\n' text.toList).map String.ofList

/-- The lines of a byte string. -/
def byteLines (bytes : List UInt8) : List (List UInt8) :=
  splitLines 0x0d 0x0a bytes

end ClassAccess.Text
