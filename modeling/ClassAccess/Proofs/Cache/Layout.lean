import ClassAccess.Cache.Payload
import ClassAccess.Proofs.Outcome
import ClassAccess.Proofs.Text.Utf8

/-!
# How payloads are written

A layout says which byte strings stand for a value. There may be several of them, since a number may
be written longer than it needs. The reader of each part of a payload accepts exactly what has the
layout of that part.

## Main definitions

* `Layout` — the byte strings that stand for a value.
* `Layout.Number`, `Layout.Text`, `Layout.Case`, `Layout.Optional`, `Layout.Counted` — the building
  blocks.
* `Edit.Written`, `StoredRule.Written`, `Payload.Written` — the parts of a payload and the whole of
  it.
* `Decoder.Exact` — a decoder reads what has some layout and nothing else.

## Main results

* `Decoder.varint_exact`, `Decoder.text_exact`, `Decoder.optional_exact`,
  `Decoder.exists_counted_iff` — the readers of the building blocks.
* `Payload.read_exact` — the reader of a payload.
-/

set_option autoImplicit false

namespace ClassAccess

/-- How a value is written: the byte strings that stand for it. -/
abbrev Layout (α : Type) := α → List UInt8 → Prop

namespace Layout

variable {α : Type}

/-! ## Building blocks -/

/-- A number is written in one byte, or in two, four or eight bytes after a marker. Eight bytes are
too many in places where a number has to be less wide. -/
inductive Number (widest : Nat) : Layout Nat
  /-- One byte. -/
  | byte {b : UInt8} : b.toNat ≤ 250 → Number widest b.toNat [b]
  /-- Two bytes after a marker. -/
  | two {body : List UInt8} : body.length = 2 → Number widest (littleEndian body) (251 :: body)
  /-- Four bytes after a marker. -/
  | four {body : List UInt8} : body.length = 4 → Number widest (littleEndian body) (252 :: body)
  /-- Eight bytes after a marker. -/
  | eight {body : List UInt8} : 8 ≤ widest → body.length = 8 →
    Number widest (littleEndian body) (253 :: body)

/-- A text is written as the number of its bytes and these bytes. -/
def Text : Layout String := fun text bytes =>
  ∃ front, Number 8 (Utf8.encode text.toList).length front ∧
    bytes = front ++ Utf8.encode text.toList

/-- One of several cases is written as its number. -/
def Case (cases : List α) : Layout α := fun a bytes =>
  ∃ index, Number 4 index bytes ∧ cases[index]? = some a

/-- A part that may be left out is written as a byte that says whether it is there, and the part. -/
inductive Optional (part : Layout α) : Layout (Option α)
  /-- It is left out. -/
  | none : Optional part .none [0]
  /-- It is there. -/
  | some {a : α} {body : List UInt8} : part a body → Optional part (.some a) (1 :: body)

/-- Parts are written one after the other. -/
inductive Sequence (part : Layout α) : Layout (List α)
  /-- No part. -/
  | nil : Sequence part [] []
  /-- A part and those after it. -/
  | cons {a : α} {l : List α} {body rest : List UInt8} : part a body → Sequence part l rest →
    Sequence part (a :: l) (body ++ rest)

/-- A list is written as the number of its elements and the elements. -/
def Counted (part : Layout α) : Layout (List α) := fun l bytes =>
  ∃ front body, Number 8 l.length front ∧ Sequence part l body ∧ bytes = front ++ body

/-- A digest is written as it is. -/
def Digest : Layout (List UInt8) := fun digest bytes =>
  digest.length = digestLength ∧ bytes = digest

end Layout

/-! ## Parts of a payload -/

/-- An edit is written as its modifier and its action. -/
def Edit.Written : Layout Edit := fun e bytes =>
  ∃ modifier action, Layout.Case Modifier.all e.modifier modifier ∧
    Layout.Case EditAction.numbered e.action action ∧ bytes = modifier ++ action

/-- A rule is written as its kind, its class, its member, its level and its edits. -/
def StoredRule.Written : Layout StoredRule := fun r bytes =>
  ∃ kind className member level edits, Layout.Case TargetKind.numbered r.kind kind ∧
    Layout.Text r.className className ∧ Layout.Optional Layout.Text r.member member ∧
    Layout.Case Level.all r.level level ∧ Layout.Counted Edit.Written r.edits edits ∧
    bytes = kind ++ (className ++ (member ++ (level ++ edits)))

/-- A payload is written as the two numbers, the digest and the rules. -/
def Payload.Written : Layout Payload := fun p bytes =>
  ∃ ruleCount classCount sourceDigest rules, Layout.Number 8 p.ruleCount ruleCount ∧
    Layout.Number 8 p.classCount classCount ∧
    Layout.Optional Layout.Digest p.sourceDigest sourceDigest ∧
    Layout.Counted StoredRule.Written p.rules rules ∧
    bytes = ruleCount ++ (classCount ++ (sourceDigest ++ rules))

/-! ## Single decoders -/

namespace Decoder

variable {α β : Type} {bytes rest : List UInt8}

/-- A decoder takes off the front what stands for some value, and gives this value; it succeeds on
nothing else. -/
def Exact (d : Decoder α) (layout : Layout α) : Prop :=
  ∀ bytes a rest, d bytes = .ok (a, rest) ↔ ∃ body, layout a body ∧ bytes = body ++ rest

/-- `take` takes bytes off the front. -/
theorem take_eq_ok_iff {n : Nat} {body : List UInt8} :
    take n bytes = .ok (body, rest) ↔ body.length = n ∧ bytes = body ++ rest := by
  constructor
  · intro h
    simp only [take] at h
    split_ifs at h with hlength
    cases h
    exact ⟨hlength, (List.take_append_drop n bytes).symm⟩
  · rintro ⟨rfl, rfl⟩
    exact take_append body rest

/-- `byte` takes one byte. -/
theorem byte_eq_ok_iff {b : UInt8} : byte bytes = .ok (b, rest) ↔ bytes = b :: rest := by
  cases bytes with
  | nil => exact ⟨nofun, nofun⟩
  | cons c cs =>
    constructor
    · intro h
      cases h
      rfl
    · rintro ⟨⟩
      rfl

/-- A number of fixed width is that of its bytes. -/
theorem fixed_eq_ok_iff {n m : Nat} :
    fixed n bytes = .ok (m, rest) ↔
      ∃ body, body.length = n ∧ m = littleEndian body ∧ bytes = body ++ rest := by
  rw [fixed, Parser.bind_eq_ok_iff]
  constructor
  · rintro ⟨body, mid, htake, hpure⟩
    obtain ⟨rfl, rfl⟩ := Parser.pure_eq_ok_iff.1 hpure
    obtain ⟨hlength, rfl⟩ := take_eq_ok_iff.1 htake
    exact ⟨body, hlength, rfl, rfl⟩
  · rintro ⟨body, hlength, rfl, rfl⟩
    exact ⟨body, rest, take_eq_ok_iff.2 ⟨hlength, rfl⟩, rfl⟩

/-- **Numbers** are read as they are written. -/
theorem varint_exact (widest : Nat) (kind : NumberKind) :
    (varint widest kind).Exact (Layout.Number widest) := by
  intro bytes n rest
  rw [varint, Parser.bind_eq_ok_iff]
  constructor
  · rintro ⟨b, mid, hbyte, h⟩
    obtain rfl := byte_eq_ok_iff.1 hbyte
    split_ifs at h with h250 h251 h252 h253 hwide h254
    · obtain ⟨rfl, rfl⟩ := Parser.pure_eq_ok_iff.1 h
      exact ⟨[b], .byte h250, rfl⟩
    · obtain ⟨body, hlength, rfl, rfl⟩ := fixed_eq_ok_iff.1 h
      exact ⟨_, .two hlength, h251 ▸ rfl⟩
    · obtain ⟨body, hlength, rfl, rfl⟩ := fixed_eq_ok_iff.1 h
      exact ⟨_, .four hlength, h252 ▸ rfl⟩
    · obtain ⟨body, hlength, rfl, rfl⟩ := fixed_eq_ok_iff.1 h
      exact ⟨_, .eight hwide hlength, h253 ▸ rfl⟩
    all_goals cases h
  · rintro ⟨_, hbody, rfl⟩
    cases hbody with
    | @byte b hb =>
      refine ⟨b, rest, rfl, ?_⟩
      rw [if_pos (show b ≤ 250 from hb)]
      rfl
    | two hlength => exact ⟨251, _, rfl, fixed_eq_ok_iff.2 ⟨_, hlength, rfl, rfl⟩⟩
    | four hlength => exact ⟨252, _, rfl, fixed_eq_ok_iff.2 ⟨_, hlength, rfl, rfl⟩⟩
    | eight hwide hlength =>
      refine ⟨253, _, rfl, ?_⟩
      rw [if_neg (by decide), if_neg (by decide), if_neg (by decide), if_pos rfl, if_pos hwide]
      exact fixed_eq_ok_iff.2 ⟨_, hlength, rfl, rfl⟩

/-- Numbers of any width are read as they are written. -/
theorem number_exact : number.Exact (Layout.Number 8) :=
  fun bytes => varint_exact 8 (if 9 ≤ bytes.length then .word4 else .word8) bytes

/-- **Texts** are read as they are written. -/
theorem text_exact : text.Exact Layout.Text := by
  intro bytes t rest
  simp only [text, Parser.bind_eq_ok_iff, number_exact _ _ _, take_eq_ok_iff]
  constructor
  · rintro ⟨n, mid, ⟨front, hfront, rfl⟩, body, rest', ⟨rfl, rfl⟩, h⟩
    cases hdecode : Utf8.decode body with
    | error defect => rw [hdecode] at h; cases h
    | ok cs =>
      rw [hdecode] at h
      obtain ⟨rfl, rfl⟩ := Parser.pure_eq_ok_iff.1 h
      obtain rfl := Utf8.decode_eq_ok_iff.1 hdecode
      refine ⟨front ++ Utf8.encode cs, ⟨front, ?_, ?_⟩, (List.append_assoc ..).symm⟩ <;>
        rw [String.toList_ofList]
      exact hfront
  · rintro ⟨_, ⟨front, hfront, rfl⟩, rfl⟩
    refine ⟨_, Utf8.encode t.toList ++ rest, ⟨front, hfront, List.append_assoc ..⟩, _, rest,
      ⟨rfl, rfl⟩, ?_⟩
    rw [Utf8.decode_eq_ok_iff.2 rfl]
    exact Parser.pure_eq_ok_iff.2 ⟨(String.ofList_toList ..).symm, rfl⟩

/-- **Cases** are read as they are written. -/
theorem oneOf_exact (cases : List α) : (oneOf cases).Exact (Layout.Case cases) := by
  intro bytes a rest
  simp only [oneOf, Parser.bind_eq_ok_iff, varint_exact _ _ _ _ _]
  constructor
  · rintro ⟨index, mid, ⟨body, hbody, rfl⟩, h⟩
    cases hcase : cases[index]? with
    | none => rw [hcase] at h; cases h
    | some b =>
      rw [hcase] at h
      obtain ⟨rfl, rfl⟩ := Parser.pure_eq_ok_iff.1 h
      exact ⟨body, ⟨index, hbody, hcase⟩, rfl⟩
  · rintro ⟨body, ⟨index, hbody, hcase⟩, rfl⟩
    refine ⟨index, rest, ⟨body, hbody, rfl⟩, ?_⟩
    rw [hcase]
    rfl

/-! ## Decoders made of decoders -/

variable {part : Decoder α} {layout : Layout α}

/-- **A part that may be left out** is read as it is written. -/
theorem optional_exact (h : part.Exact layout) :
    (optional part).Exact (Layout.Optional layout) := by
  intro bytes a rest
  rw [optional, Parser.bind_eq_ok_iff]
  constructor
  · rintro ⟨b, mid, hbyte, hpart⟩
    obtain rfl := byte_eq_ok_iff.1 hbyte
    split_ifs at hpart with h0 h1
    · obtain ⟨rfl, rfl⟩ := Parser.pure_eq_ok_iff.1 hpart
      exact ⟨[0], .none, h0 ▸ rfl⟩
    · obtain ⟨c, mid', hc, hpure⟩ := Parser.bind_eq_ok_iff.1 hpart
      obtain ⟨rfl, rfl⟩ := Parser.pure_eq_ok_iff.1 hpure
      obtain ⟨body, hbody, rfl⟩ := (h _ _ _).1 hc
      exact ⟨1 :: body, .some hbody, h1 ▸ rfl⟩
    · cases hpart
  · rintro ⟨_, hbody, rfl⟩
    cases hbody with
    | none => exact ⟨0, rest, rfl, rfl⟩
    | @some c body hbody =>
      refine ⟨1, body ++ rest, rfl, Parser.bind_eq_ok_iff.2 ⟨c, rest, ?_, rfl⟩⟩
      exact (h _ _ _).2 ⟨body, hbody, rfl⟩

/-- Parts one after the other are read as they are written. -/
theorem many_eq_ok_iff (h : part.Exact layout) {n : Nat} {l : List α} :
    Parser.many part n bytes = .ok (l, rest) ↔
      l.length = n ∧ ∃ body, Layout.Sequence layout l body ∧ bytes = body ++ rest := by
  induction n generalizing bytes rest l with
  | zero =>
    rw [Parser.many, Parser.pure_eq_ok_iff]
    constructor
    · rintro ⟨rfl, rfl⟩
      exact ⟨rfl, [], .nil, rfl⟩
    · rintro ⟨hl, body, hbody, rfl⟩
      cases hbody with
      | nil => exact ⟨rfl, rfl⟩
      | cons => cases hl
  | succ n ih =>
    simp only [Parser.many, Parser.bind_eq_ok_iff, Parser.pure_eq_ok_iff, ih, h _ _ _]
    constructor
    · rintro ⟨a, mid, ⟨body, hbody, rfl⟩, l, mid', ⟨rfl, more, hmore, rfl⟩, rfl, rfl⟩
      exact ⟨rfl, body ++ more, .cons hbody hmore, (List.append_assoc ..).symm⟩
    · rintro ⟨hl, _, hbody, rfl⟩
      cases hbody with
      | nil => cases hl
      | @cons a l body more hbody hmore =>
        exact ⟨a, more ++ rest, ⟨body, hbody, List.append_assoc ..⟩, l, rest,
          ⟨Nat.succ.inj hl, more, hmore, rfl⟩, rfl, rfl⟩

/-- **Lists** are read as they are written. -/
theorem exists_counted_iff (h : part.Exact layout) {l : List α} :
    (∃ n mid, count bytes = .ok (n, mid) ∧ Parser.many part n mid = .ok (l, rest)) ↔
      ∃ body, Layout.Counted layout l body ∧ bytes = body ++ rest := by
  simp only [many_eq_ok_iff h, count, varint_exact _ _ _ _ _]
  constructor
  · rintro ⟨n, mid, ⟨front, hfront, rfl⟩, rfl, body, hbody, rfl⟩
    exact ⟨front ++ body, ⟨front, body, hfront, hbody, rfl⟩, (List.append_assoc ..).symm⟩
  · rintro ⟨_, ⟨front, body, hfront, hbody, rfl⟩, rfl⟩
    exact ⟨_, body ++ rest, ⟨front, hfront, List.append_assoc ..⟩, rfl, body, hbody, rfl⟩

/-- Bytes one after the other are a byte string. -/
theorem many_byte_eq_ok_iff {n : Nat} {body : List UInt8} :
    Parser.many byte n bytes = .ok (body, rest) ↔ body.length = n ∧ bytes = body ++ rest := by
  induction n generalizing bytes rest body with
  | zero =>
    rw [Parser.many, Parser.pure_eq_ok_iff, List.length_eq_zero_iff]
    constructor <;> rintro ⟨rfl, rfl⟩ <;> exact ⟨rfl, rfl⟩
  | succ n ih =>
    simp only [Parser.many, Parser.bind_eq_ok_iff, Parser.pure_eq_ok_iff, byte_eq_ok_iff, ih]
    constructor
    · rintro ⟨b, _, rfl, body, _, ⟨rfl, rfl⟩, rfl, rfl⟩
      exact ⟨rfl, rfl⟩
    · rintro ⟨hlength, rfl⟩
      obtain ⟨b, body, rfl⟩ := List.exists_cons_of_length_eq_add_one hlength
      exact ⟨b, _, rfl, body, _, ⟨Nat.succ.inj hlength, rfl⟩, rfl, rfl⟩

/-- Digests are read as they are written. -/
theorem digest_exact : Exact (Parser.many byte digestLength) Layout.Digest := by
  intro bytes digest rest
  rw [many_byte_eq_ok_iff]
  constructor
  · rintro ⟨hlength, rfl⟩
    exact ⟨digest, ⟨hlength, rfl⟩, rfl⟩
  · rintro ⟨_, ⟨hlength, rfl⟩, rfl⟩
    exact ⟨hlength, rfl⟩

end Decoder

/-! ## The whole payload -/

open Decoder

/-- **Edits** are read as they are written. -/
theorem Edit.read_exact : Edit.read.Exact Edit.Written := by
  intro bytes e rest
  simp only [Edit.read, Parser.bind_eq_ok_iff, Parser.pure_eq_ok_iff, oneOf_exact _ _ _ _]
  constructor
  · rintro ⟨m, _, ⟨modifier, hmodifier, rfl⟩, a, _, ⟨action, haction, rfl⟩, rfl, rfl⟩
    exact ⟨_, ⟨modifier, action, hmodifier, haction, rfl⟩, (List.append_assoc ..).symm⟩
  · rintro ⟨_, ⟨modifier, action, hmodifier, haction, rfl⟩, rfl⟩
    exact ⟨_, _, ⟨modifier, hmodifier, List.append_assoc ..⟩, _, _, ⟨action, haction, rfl⟩,
      rfl, rfl⟩

/-- **Rules** are read as they are written. -/
theorem StoredRule.read_exact : StoredRule.read.Exact StoredRule.Written := by
  intro bytes r rest
  simp only [StoredRule.read, Parser.bind_eq_ok_iff, Parser.pure_eq_ok_iff, oneOf_exact _ _ _ _,
    text_exact _ _ _, optional_exact text_exact _ _ _]
  constructor
  · rintro ⟨_, _, ⟨kind, hkind, rfl⟩, _, _, ⟨className, hclass, rfl⟩, _, _, ⟨member, hmember, rfl⟩,
      _, _, ⟨level, hlevel, rfl⟩, n, mid, hcount, _, _, hmany, rfl, rfl⟩
    obtain ⟨edits, hedits, rfl⟩ := (exists_counted_iff Edit.read_exact).1 ⟨n, mid, hcount, hmany⟩
    refine ⟨_, ⟨kind, className, member, level, edits, hkind, hclass, hmember, hlevel, hedits, rfl⟩,
      ?_⟩
    simp only [List.append_assoc]
  · rintro ⟨_, ⟨kind, className, member, level, edits, hkind, hclass, hmember, hlevel, hedits, rfl⟩,
      rfl⟩
    obtain ⟨n, mid, hcount, hmany⟩ :=
      (exists_counted_iff Edit.read_exact).2 ⟨edits, hedits, rfl⟩
    refine ⟨_, _, ⟨kind, hkind, List.append_assoc ..⟩, _, _,
      ⟨className, hclass, List.append_assoc ..⟩, _, _, ⟨member, hmember, List.append_assoc ..⟩,
      _, _, ⟨level, hlevel, List.append_assoc ..⟩, n, mid, hcount, _, _, hmany, rfl, rfl⟩

/-- **Payloads** are read as they are written. -/
theorem Payload.read_exact : Payload.read.Exact Payload.Written := by
  intro bytes p rest
  simp only [Payload.read, Parser.bind_eq_ok_iff, Parser.pure_eq_ok_iff, number_exact _ _ _,
    optional_exact digest_exact _ _ _]
  constructor
  · rintro ⟨_, _, ⟨ruleCount, hrules, rfl⟩, _, _, ⟨classCount, hclasses, rfl⟩, _, _,
      ⟨digest, hdigest, rfl⟩, n, mid, hcount, _, _, hmany, rfl, rfl⟩
    obtain ⟨rules, hstored, rfl⟩ :=
      (exists_counted_iff StoredRule.read_exact).1 ⟨n, mid, hcount, hmany⟩
    refine ⟨_, ⟨ruleCount, classCount, digest, rules, hrules, hclasses, hdigest, hstored, rfl⟩, ?_⟩
    simp only [List.append_assoc]
  · rintro ⟨_, ⟨ruleCount, classCount, digest, rules, hrules, hclasses, hdigest, hstored, rfl⟩, rfl⟩
    obtain ⟨n, mid, hcount, hmany⟩ :=
      (exists_counted_iff StoredRule.read_exact).2 ⟨rules, hstored, rfl⟩
    exact ⟨_, _, ⟨ruleCount, hrules, List.append_assoc ..⟩, _, _,
      ⟨classCount, hclasses, List.append_assoc ..⟩, _, _, ⟨digest, hdigest, List.append_assoc ..⟩,
      n, mid, hcount, _, _, hmany, rfl, rfl⟩

end ClassAccess
