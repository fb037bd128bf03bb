import ClassAccess.Rule.Line
import ClassAccess.RuleSet.Basic
import ClassAccess.Text.Utf8

/-!
# Loading rule sets

Rules come from texts, from byte strings that are read line by line, from files, or are given as
they are; several such sources make one set.

## Main definitions

* `RuleSource`, `RuleSet.ofSources` — a set from texts and rules in any order.
* `RuleSet.ofText` — a set from one text.
* `RuleSet.ofReader`, `RuleSet.ofFile` — a set from bytes.

## Design

A file is taken as a whole: where some byte of it is not UTF-8, no rule of it is looked at. A reader
takes one line after the other, so that a bad rule in front of a byte that is not UTF-8 is found
first.
-/

set_option autoImplicit false

namespace ClassAccess

/-- Why rules could not be loaded. -/
inductive LoadError
  /-- There is no such file. -/
  | notFound
  /-- The bytes are not UTF-8. -/
  | invalidData
  /-- A line is no rule. -/
  | parse (error : ParseError)
deriving DecidableEq, Repr

/-- The text for a file that is not there. -/
def notFoundText : String := "No such file or directory (os error 2)"

/-- The error in words. -/
def LoadError.message : LoadError → String
  | notFound => notFoundText
  | invalidData => "stream did not contain valid UTF-8"
  | parse error => error.message

/-- Where rules come from. -/
inductive RuleSource
  /-- A rule text. -/
  | text (text : String)
  /-- A rule as it is. -/
  | rule (rule : Rule)
deriving DecidableEq

/-- The rules of a source. -/
def RuleSource.rules : RuleSource → Except ParseError (List Rule)
  | text t => Rule.parseText t
  | rule r => .ok [r]

/-- The rules of all sources in order, up to the first bad line. -/
def RuleSource.rulesOfAll : List RuleSource → Except ParseError (List Rule)
  | [] => .ok []
  | source :: sources => do
    let rules ← source.rules
    let rest ← rulesOfAll sources
    return rules ++ rest

/-- The rules of lines numbered from `first` on, each of which is looked at as bytes and then as a
rule before the next one is. -/
def Rule.parseByteLines : (first : Nat) → List (List UInt8) → Except LoadError (List Rule)
  | _, [] => .ok []
  | first, bytes :: rest =>
    match Utf8.decode? bytes with
    | none => .error .invalidData
    | some raw =>
      match Rule.parseLine first raw with
      | .error e => .error (.parse e)
      | .ok rule => do
        let rules ← parseByteLines (first + 1) rest
        return rule.toList ++ rules

namespace RuleSet

/-- The set of the rules of all sources. -/
def ofSources (sources : List RuleSource) : Except ParseError RuleSet :=
  ofRules <$> RuleSource.rulesOfAll sources

/-- The set of the rules of a text. -/
def ofText (text : String) : Except ParseError RuleSet :=
  ofRules <$> Rule.parseText text

/-- The set of the rules of a byte string that is read line by line. -/
def ofReader (bytes : List UInt8) : Except LoadError RuleSet :=
  ofRules <$> Rule.parseByteLines 1 (Text.byteLines bytes)

/-- The set of the rules in a file with these contents, none if there is no such file. -/
def ofFile : Option (List UInt8) → Except LoadError RuleSet
  | none => .error .notFound
  | some bytes =>
    match Utf8.decode? bytes with
    | none => .error .invalidData
    | some text => (ofText text).mapError .parse

end RuleSet

end ClassAccess
