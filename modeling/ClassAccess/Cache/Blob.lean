import ClassAccess.Bytes.Blake3
import ClassAccess.Cache.Payload
import ClassAccess.RuleSet.Load
import ClassAccess.Text.Quoted

/-!
# Caches

A rule set in binary form: a header with a checksum, and the payload. A cache is taken at its word
only as far as rule text would go: every rule in it has to be the one that its own text reads as.

## Main definitions

* `Cache.encode` — the cache of a rule set.
* `Cache.decode` — the rule set of a cache, or the first check that it fails.
* `CacheError` — the checks.
-/

set_option autoImplicit false

namespace ClassAccess

/-! ## Errors -/

/-- Why the contents of a cache are not those of a rule set. -/
inductive CacheFault
  /-- A member where there can be none, or none where there has to be one. -/
  | inconsistentMember (kind : TargetKind) (className : String) (member : Option String)
  /-- The text of a rule reads as another rule or as none. -/
  | changedByText (text : String)
  /-- The text of a rule cannot be read. -/
  | unreadable (error : ParseError)
  /-- The number of rules is not the one that is told. -/
  | ruleCount (told actual : Nat)
  /-- The number of classes is not the one that is told. -/
  | classCount (told actual : Nat)
deriving DecidableEq, Repr

/-- The fault in words. -/
def CacheFault.message : CacheFault → String
  | inconsistentMember kind className member =>
    s!"{kind.word} rule for '{className}' has inconsistent member {Text.quoteOption member}"
  | changedByText text => s!"rule '{text}' does not survive a reparse"
  | unreadable error => error.message
  | ruleCount told actual => s!"metadata says {told} rules but payload has {actual}"
  | classCount told actual => s!"metadata says {told} classes but payload has {actual}"

/-- Why a byte string is no cache. -/
inductive CacheError
  /-- There is no such file. -/
  | notFound
  /-- The header says one length and the cache has another. -/
  | lengthMismatch (expected actual : Nat)
  /-- The header does not start like that of a cache. -/
  | badMagic
  /-- The cache is of another version. -/
  | incompatibleVersion (found : Nat)
  /-- The payload does not have the checksum in the header. -/
  | checksumMismatch
  /-- The payload cannot be decoded. -/
  | decode (error : PayloadError)
  /-- The payload is not that of a rule set. -/
  | invalid (fault : CacheFault)
deriving DecidableEq, Repr

namespace Cache

/-- The version of the format. -/
def formatVersion : Nat := 1

/-- The version of the program that writes caches, which nothing depends on. -/
def engineVersion : Nat := 1

/-- How many bytes the header has. -/
def headerLength : Nat := 32

/-- How many bytes of the digest of the payload the header holds. -/
def checksumLength : Nat := 16

/-- The bytes that every cache starts with. -/
def magic : List UInt8 := [0x4a, 0x56, 0x41, 0x54]

end Cache

/-- The error in words. -/
def CacheError.message : CacheError → String
  | notFound => s!"I/O error during deserialization: {notFoundText}"
  | lengthMismatch expected actual =>
    s!"payload length mismatch: expected {expected} bytes, got {actual}"
  | badMagic => "not an access transformer cache: invalid magic bytes"
  | incompatibleVersion found =>
    s!"incompatible format version: blob is v{found}, engine supports v{Cache.formatVersion}"
  | checksumMismatch => "integrity check failed: BLAKE3 checksum mismatch"
  | decode error => s!"failed to decode payload: {error.message}"
  | invalid fault => s!"validation failed: {fault.message}"

namespace Cache

/-- The first bytes of the digest of a payload. -/
def checksum (payload : List UInt8) : List UInt8 :=
  (Blake3.hash payload).take checksumLength

/-! ## Writing -/

/-- The header in front of a payload: magic bytes, the two versions, a word that is kept free, the
length of the payload and its checksum. -/
def header (payload : List UInt8) : List UInt8 :=
  magic ++ littleEndianBytes 2 formatVersion ++ littleEndianBytes 2 engineVersion ++
    littleEndianBytes 4 0 ++ littleEndianBytes 4 payload.length ++ checksum payload

/-- The payload for a rule set that came from a text, if it did. -/
def payloadOf (s : RuleSet) (source : Option String) : Payload where
  ruleCount := s.size
  classCount := s.byClass.size
  sourceDigest := source.map fun text => Blake3.hash (Utf8.encode text.toList)
  rules := s.rules.toList.map StoredRule.ofRule

/-- The cache of a rule set that came from a text, if it did. -/
def encode (s : RuleSet) (source : Option String) : List UInt8 :=
  let payload := (payloadOf s source).encode
  header payload ++ payload

/-! ## Reading -/

/-- The payload of a cache whose header is in order. -/
def checkedPayload (bytes : List UInt8) : Except CacheError (List UInt8) :=
  let payload := bytes.drop headerLength
  let version := littleEndian ((bytes.drop 4).take 2)
  let told := littleEndian ((bytes.drop 12).take 4)
  if bytes.length < headerLength then .error (.lengthMismatch headerLength bytes.length)
  else if bytes.take 4 ≠ magic then .error .badMagic
  else if version ≠ formatVersion then .error (.incompatibleVersion version)
  else if payload.length ≠ told then .error (.lengthMismatch told payload.length)
  else if checksum payload ≠ (bytes.drop 16).take checksumLength then .error .checksumMismatch
  else .ok payload

/-- The target of a stored rule, in normal form. -/
def targetOf (r : StoredRule) : Except CacheFault Target :=
  match r.kind, r.member with
  | .classLevel, none => .ok (Target.forClass r.className)
  | .field, some name => .ok (Target.forField r.className name)
  | .method, some signature => .ok (Target.forMethod r.className signature)
  | kind, member => .error (.inconsistentMember kind r.className member)

/-- The rule, if it is the one that its text reads as. -/
def validated (rule : Rule) : Except CacheFault Rule :=
  match Rule.parseLine 1 rule.text with
  | .ok (some reread) => if reread = rule then .ok rule else .error (.changedByText rule.text)
  | .ok none => .error (.changedByText rule.text)
  | .error e => .error (.unreadable e)

/-- The rule that is stored. -/
def ruleOf (r : StoredRule) : Except CacheFault Rule := do
  validated (Rule.ofEdits (← targetOf r) r.level r.edits)

/-- The rules that are stored, up to the first one that is none. -/
def rulesOf : List StoredRule → Except CacheFault (List Rule)
  | [] => .ok []
  | r :: rest => do
    let rule ← ruleOf r
    let rules ← rulesOf rest
    return rule :: rules

/-- The rule set of a payload. -/
def ruleSetOf (p : Payload) : Except CacheFault RuleSet := do
  if p.ruleCount ≠ p.rules.length then throw (.ruleCount p.ruleCount p.rules.length)
  let s := RuleSet.ofRules (← rulesOf p.rules)
  if s.byClass.size ≠ p.classCount then throw (.classCount p.classCount s.byClass.size)
  return s

/-- The contents of a cache. Bytes of the payload after the last rule are passed over. -/
def payload (bytes : List UInt8) : Except CacheError Payload := do
  let body ← checkedPayload bytes
  (Prod.fst <$> Payload.read body).mapError .decode

/-- The rule set of a cache. -/
def decode (bytes : List UInt8) : Except CacheError RuleSet := do
  (ruleSetOf (← payload bytes)).mapError .invalid

/-- The rule set of the cache in a file with these contents, none if there is no such file. -/
def ofFile : Option (List UInt8) → Except CacheError RuleSet
  | none => .error .notFound
  | some bytes => decode bytes

end Cache

end ClassAccess
