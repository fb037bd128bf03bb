import ClassAccess.Proofs.Cache.RoundTrip

/-!
# What makes a byte string a cache

A byte string is a cache if it passes a row of checks, from its length to the number of its classes.
It is then the rule set that its payload makes up. Otherwise the first check that it fails says what
is wrong.

## Main definitions

* `Cache.Holds` — the payload of a byte string.
* `Cache.Check` — the checks, in the order of `Cache.Check.all`.
* `Cache.Check.Passes`, `Cache.Check.Reports` — when a byte string passes a check, and what is
  reported where it does not.
* `Cache.Check.Fails` — the first check that a byte string fails.

## Main results

* `Cache.decode_eq_ok_iff` — which byte strings are caches, and of which rule sets.
* `Cache.exists_fails_of_decode` — which errors are reported.
* `Cache.decode_of_free`, `Cache.decode_of_same_rules` — what does not matter.
-/

set_option autoImplicit false

namespace ClassAccess.Cache

variable {bytes : List UInt8}

/-! ## Checks -/

/-- The version that a header tells. -/
def toldVersion (bytes : List UInt8) : Nat := littleEndian ((bytes.drop 4).take 2)

/-- The length of the payload that a header tells. -/
def toldLength (bytes : List UInt8) : Nat := littleEndian ((bytes.drop 12).take 4)

/-- What follows the header begins with a payload. -/
def Holds (bytes : List UInt8) (p : Payload) : Prop :=
  ∃ body rest, Payload.Written p body ∧ bytes.drop headerLength = body ++ rest

/-- What is checked of a byte string. -/
inductive Check
  /-- There is room for a header. -/
  | header
  /-- The header starts like that of a cache. -/
  | magic
  /-- The version is the right one. -/
  | version
  /-- The length of the payload is the one that is told. -/
  | length
  /-- So is its checksum. -/
  | checksum
  /-- There is a payload. -/
  | layout
  /-- The number of rules is the one that is told. -/
  | ruleCount
  /-- The rules are valid. -/
  | rules
  /-- The number of classes is the one that is told. -/
  | classCount
deriving DecidableEq, Repr

namespace Check

/-- The checks of the header, in order. -/
def ofHeader : List Check := [header, magic, version, length, checksum]

/-- All checks, in order. -/
def all : List Check := ofHeader ++ [layout, ruleCount, rules, classCount]

/-- When a byte string passes a check. -/
def Passes (bytes : List UInt8) : Check → Prop
  | header => headerLength ≤ bytes.length
  | magic => Cache.magic <+: bytes
  | version => toldVersion bytes = formatVersion
  | length => toldLength bytes = bytes.length - headerLength
  | checksum => (bytes.drop 16).take 16 = (Blake3.hash (bytes.drop headerLength)).take 16
  | layout => ∃ p, Holds bytes p
  | ruleCount => ∃ p, Holds bytes p ∧ p.ruleCount = p.rules.length
  | rules => ∃ p, Holds bytes p ∧ ∀ r ∈ p.rules, r.Valid
  | classCount => ∃ p, Holds bytes p ∧ p.classCount = p.classNames.length

/-- What is reported where a byte string does not pass a check. -/
def Reports (bytes : List UInt8) : Check → CacheError → Prop
  | header, e => e = .lengthMismatch headerLength bytes.length
  | magic, e => e = .badMagic
  | version, e => e = .incompatibleVersion (toldVersion bytes)
  | length, e => e = .lengthMismatch (toldLength bytes) (bytes.length - headerLength)
  | checksum, e => e = .checksumMismatch
  | layout, e => ∃ cause, Payload.read (bytes.drop headerLength) = .error cause ∧ e = .decode cause
  | ruleCount, e => ∃ p, Holds bytes p ∧ e = .invalid (.ruleCount p.ruleCount p.rules.length)
  | rules, e => ∃ p before r after fault, Holds bytes p ∧ p.rules = before ++ r :: after ∧
      (∀ b ∈ before, b.Valid) ∧ ¬ r.Valid ∧ r.Fault fault ∧ e = .invalid fault
  | classCount, e => ∃ p, Holds bytes p ∧
      e = .invalid (.classCount p.classCount p.classNames.length)

/-- A check is the first one that a byte string does not pass. -/
def Fails (bytes : List UInt8) (c : Check) : Prop :=
  ∃ before after, all = before ++ c :: after ∧ (∀ b ∈ before, b.Passes bytes) ∧ ¬ c.Passes bytes

end Check

/-! ## The header -/

/-- The first bytes of a header are looked at together. -/
theorem passes_magic_iff : Check.Passes bytes .magic ↔ bytes.take 4 = magic :=
  List.prefix_iff_eq_take.trans eq_comm

/-- The length of the payload is that of what follows the header. -/
theorem passes_length_iff :
    Check.Passes bytes .length ↔ (bytes.drop headerLength).length = toldLength bytes := by
  rw [List.length_drop]
  exact eq_comm

/-- The checksum is that of what follows the header. -/
theorem passes_checksum_iff :
    Check.Passes bytes .checksum ↔
      checksum (bytes.drop headerLength) = (bytes.drop 16).take checksumLength :=
  eq_comm

/-- **A header is in order** exactly if it passes its checks. -/
theorem checkedPayload_eq_ok_iff {body : List UInt8} :
    checkedPayload bytes = .ok body ↔
      (∀ c ∈ Check.ofHeader, c.Passes bytes) ∧ bytes.drop headerLength = body := by
  simp only [Check.ofHeader, List.forall_mem_cons, passes_magic_iff, passes_length_iff,
    passes_checksum_iff]
  rw [checkedPayload]
  constructor
  · intro h
    split_ifs at h with hheader hmagic hversion hlength hchecksum
    exact ⟨⟨Nat.not_lt.1 hheader, not_not.1 hmagic, not_not.1 hversion, not_not.1 hlength,
      not_not.1 hchecksum, List.forall_mem_nil _⟩, Except.ok.inj h⟩
  · rintro ⟨⟨hheader, hmagic, hversion, hlength, hchecksum, -⟩, rfl⟩
    refine (if_neg (Nat.not_lt.2 hheader)).trans ?_
    refine (if_neg (not_not_intro hmagic)).trans ?_
    refine (if_neg (not_not_intro hversion)).trans ?_
    refine (if_neg (not_not_intro hlength)).trans ?_
    exact if_neg (not_not_intro hchecksum)

/-- **A header that is not in order** is refused for the first check that it does not pass. -/
theorem exists_fails_of_checkedPayload {e : CacheError} (h : checkedPayload bytes = .error e) :
    ∃ c, Check.Fails bytes c ∧ c.Reports bytes e := by
  rw [checkedPayload] at h
  split_ifs at h with hheader hmagic hversion hlength hchecksum <;> cases h
  · exact ⟨.header, ⟨[], _, rfl, List.forall_mem_nil _, Nat.not_le.2 hheader⟩, rfl⟩
  · have hheader := Nat.not_lt.1 hheader
    refine ⟨.magic, ⟨[.header], _, rfl, ?_, mt passes_magic_iff.1 hmagic⟩, rfl⟩
    exact List.forall_mem_singleton.2 hheader
  · refine ⟨.version, ⟨[.header, .magic], _, rfl, ?_, hversion⟩, rfl⟩
    simp only [List.forall_mem_cons]
    exact ⟨Nat.not_lt.1 hheader, passes_magic_iff.2 (not_not.1 hmagic), List.forall_mem_nil _⟩
  · refine ⟨.length, ⟨[.header, .magic, .version], _, rfl, ?_, mt passes_length_iff.1 hlength⟩, ?_⟩
    · simp only [List.forall_mem_cons]
      exact ⟨Nat.not_lt.1 hheader, passes_magic_iff.2 (not_not.1 hmagic), not_not.1 hversion,
        List.forall_mem_nil _⟩
    · rw [Check.Reports, List.length_drop]
      rfl
  · refine ⟨.checksum, ⟨[.header, .magic, .version, .length], _, rfl, ?_,
      mt passes_checksum_iff.1 hchecksum⟩, rfl⟩
    simp only [List.forall_mem_cons]
    exact ⟨Nat.not_lt.1 hheader, passes_magic_iff.2 (not_not.1 hmagic), not_not.1 hversion,
      passes_length_iff.2 (not_not.1 hlength), List.forall_mem_nil _⟩

/-! ## The payload -/

/-- What is read from a payload is what it holds. -/
theorem holds_iff_read {p : Payload} :
    Holds bytes p ↔ ∃ rest, Payload.read (bytes.drop headerLength) = .ok (p, rest) := by
  simp only [Payload.read_exact _ _ _, Holds]
  exact exists_comm

/-- A byte string holds one payload at most. -/
theorem Holds.unique {p q : Payload} (hp : Holds bytes p) (hq : Holds bytes q) : p = q := by
  obtain ⟨_, hp⟩ := holds_iff_read.1 hp
  obtain ⟨_, hq⟩ := holds_iff_read.1 hq
  rw [hp] at hq
  cases hq
  rfl

section Holds

variable {p : Payload} (hp : Holds bytes p)

include hp

/-- What is known of the payload of a byte string is known of the one that it holds. -/
theorem Holds.exists_iff {q : Payload → Prop} : (∃ p, Holds bytes p ∧ q p) ↔ q p :=
  ⟨fun ⟨_, hp', hq⟩ => hp'.unique hp ▸ hq, fun hq => ⟨p, hp, hq⟩⟩

/-- The number of rules is checked for the payload that is held. -/
theorem Holds.passes_ruleCount_iff : Check.Passes bytes .ruleCount ↔ p.ruleCount = p.rules.length :=
  hp.exists_iff

/-- So are the rules. -/
theorem Holds.passes_rules_iff : Check.Passes bytes .rules ↔ ∀ r ∈ p.rules, r.Valid :=
  hp.exists_iff

/-- And so is the number of classes. -/
theorem Holds.passes_classCount_iff :
    Check.Passes bytes .classCount ↔ p.classCount = p.classNames.length :=
  hp.exists_iff

end Holds

/-- Where the header is in order and there is a payload, it remains to make a rule set of the
payload. -/
theorem decode_of_holds {p : Payload} (h : ∀ c ∈ Check.ofHeader, c.Passes bytes)
    (hp : Holds bytes p) : decode bytes = (ruleSetOf p).mapError .invalid := by
  obtain ⟨rest, hread⟩ := holds_iff_read.1 hp
  exact decode_of_read (checkedPayload_eq_ok_iff.2 ⟨h, rfl⟩) hread

/-- **What becomes of a byte string**: its header is not in order, or there is no payload after it,
or it remains to make a rule set of the payload. -/
theorem decode_cases (bytes : List UInt8) :
    (∃ e, checkedPayload bytes = .error e ∧ decode bytes = .error e) ∨
      (∀ c ∈ Check.ofHeader, c.Passes bytes) ∧
        ((∃ cause, Payload.read (bytes.drop headerLength) = .error cause ∧
            decode bytes = .error (.decode cause)) ∨
          ∃ p, Holds bytes p ∧ decode bytes = (ruleSetOf p).mapError .invalid) := by
  cases hchecked : checkedPayload bytes with
  | error e =>
    refine .inl ⟨e, rfl, ?_⟩
    rw [decode, payload, hchecked]
    rfl
  | ok body =>
    obtain ⟨hheader, rfl⟩ := checkedPayload_eq_ok_iff.1 hchecked
    cases hread : Payload.read (bytes.drop headerLength) with
    | error cause => exact .inr ⟨hheader, .inl ⟨cause, rfl, decode_of_unreadable hchecked hread⟩⟩
    | ok out =>
      have hp := holds_iff_read.2 ⟨out.2, hread⟩
      exact .inr ⟨hheader, .inr ⟨out.1, hp, decode_of_holds hheader hp⟩⟩

/-- **Which byte strings are caches**: those that pass all checks. They are the rule sets that their
payloads make up. -/
theorem decode_eq_ok_iff {s : RuleSet} :
    decode bytes = .ok s ↔
      (∀ c ∈ Check.all, c.Passes bytes) ∧ ∃ p, Holds bytes p ∧ p.ruleSet = s := by
  rw [Check.all, List.forall_mem_append]
  simp only [List.forall_mem_cons]
  obtain ⟨e, hchecked, hdecode⟩ | ⟨hheader, ⟨cause, hread, hdecode⟩ | ⟨p, hp, hdecode⟩⟩ :=
    decode_cases bytes <;> rw [hdecode]
  · refine ⟨nofun, fun h => ?_⟩
    rw [checkedPayload_eq_ok_iff.2 ⟨h.1.1, rfl⟩] at hchecked
    cases hchecked
  · refine ⟨nofun, fun ⟨_, p, hp, _⟩ => ?_⟩
    obtain ⟨rest, hp⟩ := holds_iff_read.1 hp
    rw [hp] at hread
    cases hread
  · rw [mapError_eq_ok_iff, ruleSetOf_eq_ok_iff, hp.exists_iff, hp.passes_ruleCount_iff,
      hp.passes_rules_iff, hp.passes_classCount_iff]
    constructor
    · rintro ⟨hcount, hrules, hclasses, hset⟩
      exact ⟨⟨hheader, ⟨p, hp⟩, hcount, hrules, hclasses, List.forall_mem_nil _⟩, hset⟩
    · rintro ⟨⟨-, -, hcount, hrules, hclasses, -⟩, hset⟩
      exact ⟨hcount, hrules, hclasses, hset⟩

/-- **Why a byte string is refused**: for the first check that it does not pass. -/
theorem exists_fails_of_decode {e : CacheError} (h : decode bytes = .error e) :
    ∃ c, Check.Fails bytes c ∧ c.Reports bytes e := by
  obtain ⟨e', hchecked, hdecode⟩ | ⟨hheader, ⟨cause, hread, hdecode⟩ | ⟨p, hp, hdecode⟩⟩ :=
    decode_cases bytes <;> rw [hdecode] at h
  · cases h
    exact exists_fails_of_checkedPayload hchecked
  · cases h
    refine ⟨.layout, ⟨Check.ofHeader, _, rfl, hheader, ?_⟩, cause, hread, rfl⟩
    rintro ⟨p, hp⟩
    obtain ⟨rest, hp⟩ := holds_iff_read.1 hp
    rw [hp] at hread
    cases hread
  · obtain ⟨fault, hset, rfl⟩ := mapError_eq_error_iff.1 h
    have hlayout : Check.Passes bytes .layout := ⟨p, hp⟩
    obtain ⟨hcount, rfl⟩ | ⟨hcount, before, r, after, hrules, hbefore, hr, hfault⟩ |
      ⟨hcount, hrules, hclasses, rfl⟩ := ruleSetOf_eq_error hset
    · refine ⟨.ruleCount, ⟨Check.ofHeader ++ [.layout], _, rfl, ?_,
        mt hp.passes_ruleCount_iff.1 hcount⟩, p, hp, rfl⟩
      exact List.forall_mem_append.2 ⟨hheader, List.forall_mem_singleton.2 hlayout⟩
    · refine ⟨.rules, ⟨Check.ofHeader ++ [.layout, .ruleCount], _, rfl, ?_, fun hall => ?_⟩,
        p, before, r, after, fault, hp, hrules, hbefore, hr, hfault, rfl⟩
      · simp only [List.forall_mem_append, List.forall_mem_cons]
        exact ⟨hheader, hlayout, hp.passes_ruleCount_iff.2 hcount, List.forall_mem_nil _⟩
      · have hmem : r ∈ p.rules := hrules ▸ List.mem_append_right _ List.mem_cons_self
        exact hr (hp.passes_rules_iff.1 hall r hmem)
    · refine ⟨.classCount, ⟨Check.ofHeader ++ [.layout, .ruleCount, .rules], _, rfl, ?_,
        mt hp.passes_classCount_iff.1 hclasses⟩, p, hp, rfl⟩
      simp only [List.forall_mem_append, List.forall_mem_cons]
      exact ⟨hheader, hlayout, hp.passes_ruleCount_iff.2 hcount, hp.passes_rules_iff.2 hrules,
        List.forall_mem_nil _⟩

/-! ## What does not matter -/

/-- **Six bytes of the header** can be anything. -/
theorem decode_of_free {front free free' rest : List UInt8} (hfront : front.length = 6)
    (hfree : free.length = 6) (hfree' : free'.length = 6) :
    decode (front ++ free' ++ rest) = decode (front ++ free ++ rest) := by
  rw [decode, payload, decode, payload, checkedPayload_parts hfront hfree,
    checkedPayload_parts hfront hfree']

/-- **What matters in a payload** are its two numbers and its rules. -/
theorem decode_of_same_rules {other : List UInt8} {p q : Payload}
    (h : ∀ c ∈ Check.ofHeader, c.Passes bytes) (hother : ∀ c ∈ Check.ofHeader, c.Passes other)
    (hp : Holds bytes p) (hq : Holds other q)
    (hsame : q.ruleCount = p.ruleCount ∧ q.classCount = p.classCount ∧ q.rules = p.rules) :
    decode other = decode bytes := by
  obtain ⟨hrules, hclasses, hstored⟩ := hsame
  rw [decode_of_holds h hp, decode_of_holds hother hq, ruleSetOf, ruleSetOf, hrules, hclasses,
    hstored]

/-- **Caches are decided by the checks.** A byte string is accepted exactly if it passes all of
them, and otherwise refused for the first one that it does not pass. A rule set that is accepted has
the rules that are rebuilt from the payload, in their order, and is what its own text reads as;
neither the bytes of the header that are free nor the digest nor what follows the rules make a
difference. -/
theorem decode_decided_by_checks (bytes : List UInt8) :
    ((∃ s, decode bytes = .ok s) ↔ ∀ c ∈ Check.all, c.Passes bytes) ∧
      (∀ s, decode bytes = .ok s →
        (∃ p, Holds bytes p ∧ s.rules.toList = p.rules.map StoredRule.rebuilt) ∧
          RuleSet.ofText s.text = .ok s) ∧
      (∀ e, decode bytes = .error e → ∃ c, Check.Fails bytes c ∧ c.Reports bytes e) ∧
      (∀ front free free' rest : List UInt8, bytes = front ++ free ++ rest → front.length = 6 →
        free.length = 6 → free'.length = 6 → decode (front ++ free' ++ rest) = decode bytes) ∧
      ∀ (other : List UInt8) (p q : Payload), (∀ c ∈ Check.ofHeader, c.Passes bytes) →
        (∀ c ∈ Check.ofHeader, c.Passes other) → Holds bytes p → Holds other q →
        q.ruleCount = p.ruleCount ∧ q.classCount = p.classCount ∧ q.rules = p.rules →
          decode other = decode bytes := by
  refine ⟨⟨?_, fun h => ?_⟩, fun s h => ?_, fun e => exists_fails_of_decode, ?_, ?_⟩
  · rintro ⟨s, h⟩
    exact (decode_eq_ok_iff.1 h).1
  · obtain ⟨p, hp⟩ : Check.Passes bytes .layout := h .layout (by decide)
    exact ⟨p.ruleSet, decode_eq_ok_iff.2 ⟨h, p, hp, rfl⟩⟩
  · obtain ⟨hchecks, p, hp, rfl⟩ := decode_eq_ok_iff.1 h
    have hrules := hp.passes_rules_iff.1 (hchecks .rules (by decide))
    have hlist : p.ruleSet.rules.toList = p.rules.map StoredRule.rebuilt := List.toList_toArray
    refine ⟨⟨p, hp, hlist⟩, RuleSet.ofText_text ?_⟩
    rw [hlist, List.forall_mem_map]
    exact fun r hr => Rule.parseLine_text_iff.1 (hrules r hr).readsBack
  · rintro front free free' rest rfl hfront hfree hfree'
    exact decode_of_free hfront hfree hfree'
  · intro other p q h hother hp hq hsame
    exact decode_of_same_rules h hother hp hq hsame

/-- The cache of a rule set has its header in order and holds the payload of that set. -/
theorem holds_encode {s : RuleSet} {source : Option String}
    (h : (payloadOf s source).encode.length < 0x100000000) :
    (∀ c ∈ Check.ofHeader, c.Passes (encode s source)) ∧
      Holds (encode s source) (payloadOf s source) := by
  obtain ⟨hheader, hbody⟩ := checkedPayload_eq_ok_iff.1 (checkedPayload_header h)
  refine ⟨hheader, holds_iff_read.2 ⟨[], ?_⟩⟩
  rw [encode, hbody]
  exact read_payloadOf h

/-- A cache of one rule, with another version of the program, with a digest, and without any
byte. -/
theorem decode_decided_by_checks_one_rule :
    let s := RuleSet.ofRules [⟨.classLevel "a.B", .everywhere, Edits.none⟩]
    (∀ c ∈ Check.all, c.Passes (encode s none)) ∧ RuleSet.ofText s.text = .ok s ∧
      decode ((encode s none).take 6 ++ [9, 9, 9, 9, 9, 9] ++ (encode s none).drop 12) =
        decode (encode s none) ∧
      decode (encode s (some "public a/B")) = decode (encode s none) ∧
      ∃ c, Check.Fails [] c ∧ c.Reports [] (.lengthMismatch 32 0) := by
  intro s
  have hreadable : ∀ r ∈ s.rules.toList, r.target.Readable := by
    refine List.forall_mem_singleton.2 ?_
    exact ⟨by decide, Text.forall_not_blank (by decide), by decide⟩
  have hlength : (payloadOf s none).encode.length < 0x100000000 := by decide +kernel
  have hlength' : (payloadOf s (some "public a/B")).encode.length < 0x100000000 := by decide +kernel
  have hdecode := decode_encode hreadable hlength
  obtain ⟨hheader, hp⟩ := holds_encode hlength
  obtain ⟨hheader', hp'⟩ := holds_encode hlength'
  obtain ⟨haccept, hresult, -, hfree, hsame⟩ := decode_decided_by_checks (encode s none)
  refine ⟨haccept.1 ⟨s, hdecode⟩, (hresult s hdecode).2, ?_,
    hsame _ _ _ hheader hheader' hp hp' ⟨rfl, rfl, rfl⟩, (decode_decided_by_checks []).2.2.1 _ rfl⟩
  have hlong : 32 ≤ (encode s none).length := hheader .header (by decide)
  refine hfree ((encode s none).take 6) (((encode s none).drop 6).take 6) _ _ ?_ ?_ ?_ rfl
  · have hdrop : (encode s none).drop 12 = ((encode s none).drop 6).drop 6 := by rw [List.drop_drop]
    rw [List.append_assoc, hdrop, List.take_append_drop, List.take_append_drop]
  · rw [List.length_take]
    omega
  · rw [List.length_take, List.length_drop]
    omega

end ClassAccess.Cache
