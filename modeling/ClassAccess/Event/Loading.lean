import ClassAccess.Cache.Blob
import ClassAccess.Event.Basic
import ClassAccess.RuleSet.Load

/-!
# Events while rules are loaded

Every line that holds something is announced, and every rule that is found on one is told. Once all
rules are there, the warnings about them follow. What comes after the first error does not happen.

## Main definitions

* `Event.ofLine`, `Event.ofText`, `Event.ofReader`, `Event.ofFile`, `Event.ofSources` — the events
  of reading rule text.
* `Event.ofCache` — the events of reading a cache.
-/

set_option autoImplicit false

namespace ClassAccess.Event

/-- The events of reading line `number`. -/
def ofLine (number : Nat) (raw : String) : List Event :=
  if raw.toList.head? = some '#' then []
  else
    match Line.content raw with
    | [] => []
    | line =>
      .readingLine number (String.ofList line) ::
        match Line.readRule line with
        | .ok rule => [.readRule number rule.target]
        | .error _ => []

/-- The events of reading lines numbered from `first` on. -/
def ofLines : (first : Nat) → List String → List Event
  | _, [] => []
  | first, raw :: rest =>
    ofLine first raw ++
      match Rule.parseLine first raw with
      | .ok _ => ofLines (first + 1) rest
      | .error _ => []

/-- The events of reading lines numbered from `first` on as bytes. -/
def ofByteLines : (first : Nat) → List (List UInt8) → List Event
  | _, [] => []
  | first, bytes :: rest =>
    match Utf8.decode? bytes with
    | none => []
    | some raw =>
      ofLine first raw ++
        match Rule.parseLine first raw with
        | .ok _ => ofByteLines (first + 1) rest
        | .error _ => []

/-- The warnings about a list of rules, if there is one. -/
def ofRules {ε : Type} : Except ε (List Rule) → List Event
  | .ok rules => (Warning.ofRules rules).map warned
  | .error _ => []

/-- The events of making a rule set of a text. -/
def ofText (text : String) : List Event :=
  ofLines 1 (Text.lines text) ++ ofRules (Rule.parseText text)

/-- The events of making a rule set of a byte string that is read line by line. -/
def ofReader (bytes : List UInt8) : List Event :=
  ofByteLines 1 (Text.byteLines bytes) ++ ofRules (Rule.parseByteLines 1 (Text.byteLines bytes))

/-- The events of making a rule set of a file with these contents. -/
def ofFile (contents : Option (List UInt8)) : List Event :=
  match contents.bind Utf8.decode? with
  | none => []
  | some text => ofText text

/-- The events of reading the sources in order. -/
def ofSourceList : List RuleSource → List Event
  | [] => []
  | .rule _ :: rest => ofSourceList rest
  | .text text :: rest =>
    ofLines 1 (Text.lines text) ++
      match Rule.parseText text with
      | .ok _ => ofSourceList rest
      | .error _ => []

/-- The events of making a rule set of sources. -/
def ofSources (sources : List RuleSource) : List Event :=
  ofSourceList sources ++ ofRules (RuleSource.rulesOfAll sources)

/-- The events of taking rules out of a cache: the text of each is read. -/
def ofStoredRules : List StoredRule → List Event
  | [] => []
  | r :: rest =>
    match Cache.targetOf r with
    | .error _ => []
    | .ok target =>
      ofLine 1 (Rule.ofEdits target r.level r.edits).text ++
        match Cache.ruleOf r with
        | .ok _ => ofStoredRules rest
        | .error _ => []

/-- The events of making a rule set of a cache. -/
def ofCache (bytes : List UInt8) : List Event :=
  match Cache.payload bytes with
  | .error _ => []
  | .ok p =>
    if p.ruleCount ≠ p.rules.length then []
    else ofStoredRules p.rules ++ ofRules (Cache.rulesOf p.rules)

end ClassAccess.Event
