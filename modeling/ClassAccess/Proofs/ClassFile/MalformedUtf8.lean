import ClassAccess.Proofs.ClassFile.PlainUtf8

/-!
# Which texts are refused

What is read, with the shortcut or without it, is a row of sequences: a byte that leads, and as many
bytes that continue as it announces. A byte that leads stands at the start of a sequence wherever it
is found. So a byte string that ends too early cannot be read, and neither can a surrogate without
its partner, whatever stands around it.

## Main definitions

* `ModifiedUtf8.IsSequence` — a leading byte and what it announces.
* `ModifiedUtf8.EndsInside` — a byte string that ends inside a sequence.
* `ModifiedUtf8.LoneSurrogate` — a byte string with a surrogate that is no half of a pair.

## Main results

* `ModifiedUtf8.exists_split_of_lead` — a leading byte starts a sequence.
* `ModifiedUtf8.exists_sequences_of_decode` — what is read is a row of sequences.
* `ModifiedUtf8.paired_of_flatMap` — in the units of a text, surrogates stand in pairs.
* `ModifiedUtf8.decode_encode_and_refusals` — what is written is read, and what is malformed is
  refused.
-/

set_option autoImplicit false

namespace ClassAccess.ModifiedUtf8

open Utf8 (IsTail IsCharacter)

/-! ## Sequences -/

/-- How many bytes a leading byte announces. -/
def announced (lead : UInt8) : Nat :=
  if lead.toNat < 0xc0 then 0
  else if lead.toNat < 0xe0 then 1
  else if lead.toNat < 0xf0 then 2
  else 3

/-- A leading byte and as many bytes that continue as it announces. -/
inductive IsSequence : List UInt8 → Prop
  /-- The leading byte is none that continues. -/
  | intro {lead : UInt8} {tail : List UInt8} : ¬IsTail lead → (∀ b ∈ tail, IsTail b) →
    tail.length = announced lead → IsSequence (lead :: tail)

/-- Whether a byte continues a sequence shows in its number. -/
theorem not_isTail {b : UInt8} (h : b.toNat < 0x80 ∨ 0xc0 ≤ b.toNat) : ¬IsTail b := by
  intro htail
  unfold IsTail at htail
  omega

/-- A byte that announces no other one is a sequence. -/
theorem isSequence_singleton {lead : UInt8} (h : lead.toNat < 0x80) : IsSequence [lead] := by
  refine .intro (not_isTail (.inl h)) (by simp) ?_
  rw [announced, if_pos (by omega), List.length_nil]

/-- A unit is a sequence. -/
theorem IsUnit.isSequence {body : List UInt8} {u : Nat} (h : IsUnit body u) : IsSequence body := by
  cases h with
  | one _ h2 => exact isSequence_singleton h2
  | two h1 h2 hb =>
    refine .intro (not_isTail (.inr h1)) (by simpa using hb) ?_
    rw [announced, if_neg (by omega), if_pos h2, List.length_singleton]
  | three h1 h2 hb hc =>
    refine .intro (not_isTail (.inr (by omega))) (by simpa using ⟨hb, hc⟩) ?_
    rw [announced, if_neg (by omega), if_neg (by omega), if_pos h2]
    rfl

/-- A character in plain UTF-8 is a sequence. -/
theorem isSequence_of_isCharacter {body : List UInt8} {n : Nat} (h : IsCharacter body n) :
    IsSequence body := by
  cases h with
  | one h1 => exact isSequence_singleton h1
  | two h1 h2 hb => exact (IsUnit.two (by omega) h2 hb).isSequence
  | three h1 h2 hb hc => exact (IsUnit.three h1 h2 hb hc).isSequence
  | four h1 h2 hb hc hd =>
    refine .intro (not_isTail (.inr (by omega))) (by simpa using ⟨hb, hc, hd⟩) ?_
    rw [announced, if_neg (by omega), if_neg (by omega), if_neg (by omega)]
    rfl

/-- **A leading byte starts a sequence** wherever it is found in a row of sequences.

**Proof sketch.** Induction on the row. Inside the first sequence only its first byte leads; any
other leading byte is found in the rest of the row. -/
theorem exists_split_of_lead {parts : List (List UInt8)} (h : ∀ p ∈ parts, IsSequence p)
    {before after : List UInt8} {lead : UInt8} (hlead : ¬IsTail lead)
    (heq : parts.flatten = before ++ lead :: after) :
    ∃ ps tail qs, parts = ps ++ (lead :: tail) :: qs ∧ before = ps.flatten ∧
      after = tail ++ qs.flatten := by
  induction parts generalizing before with
  | nil => simp at heq
  | cons p parts ih =>
    obtain ⟨hp, hparts⟩ := List.forall_mem_cons.1 h
    cases hp with
    | @intro first tail _ htail _ =>
    rw [List.flatten_cons, List.cons_append] at heq
    cases before with
    | nil =>
      obtain ⟨rfl, rfl⟩ := List.cons.inj heq
      exact ⟨[], tail, parts, rfl, rfl, rfl⟩
    | cons b before =>
      obtain ⟨rfl, hinner⟩ := List.cons.inj heq
      rcases List.append_eq_append_iff.1 hinner with ⟨mid, rfl, hrest⟩ | ⟨mid, rfl, hrest⟩
      · obtain ⟨ps, tail', qs, rfl, rfl, rfl⟩ := ih hparts hrest
        exact ⟨(first :: tail) :: ps, tail', qs, rfl, rfl, rfl⟩
      · cases mid with
        | nil =>
          have hfront : parts.flatten = [] ++ lead :: after := hrest.symm
          obtain ⟨ps, tail', qs, rfl, hbefore, rfl⟩ := ih hparts hfront
          refine ⟨(first :: (before ++ [])) :: ps, tail', qs, rfl, ?_, rfl⟩
          rw [List.flatten_cons, ← hbefore, List.append_nil, List.append_nil]
        | cons m mid =>
          obtain ⟨rfl, -⟩ := List.cons.inj hrest
          exact absurd (htail lead (by simp)) hlead

/-- A sequence that is found in a row of sequences is one of them. -/
theorem exists_split_of_sequence {parts : List (List UInt8)} (h : ∀ p ∈ parts, IsSequence p)
    {before body after : List UInt8} (hbody : IsSequence body)
    (heq : before ++ (body ++ after) = parts.flatten) :
    ∃ ps qs, parts = ps ++ body :: qs ∧ before = ps.flatten ∧ after = qs.flatten := by
  cases hbody with
  | @intro lead tail hlead _ hlength =>
    obtain ⟨ps, tail', qs, rfl, hps, hqs⟩ := exists_split_of_lead h hlead heq.symm
    cases h _ (List.mem_append_right ps List.mem_cons_self) with
    | intro _ _ hlength' =>
      obtain ⟨rfl, rfl⟩ := List.append_inj hqs (hlength.trans hlength'.symm)
      exact ⟨ps, qs, rfl, hps, rfl⟩

/-- **What is read is a row of sequences.** -/
theorem exists_sequences_of_decode {bytes : List UInt8} {text : List Char}
    (h : decode bytes = some text) :
    ∃ parts : List (List UInt8), bytes = parts.flatten ∧ ∀ p ∈ parts, IsSequence p := by
  rcases decode_cases bytes with heq | ⟨plain, rfl, -, -⟩
  · obtain ⟨parts, hbytes, hparts⟩ := decodeUnits_eq_some_iff.1 (heq ▸ h)
    refine ⟨parts, hbytes, fun p hp => ?_⟩
    obtain ⟨u, hu⟩ := exists_unit_of_mem hparts hp
    exact hu.isSequence
  · refine ⟨plain.map String.utf8EncodeChar, rfl, fun p hp => ?_⟩
    obtain ⟨c, -, rfl⟩ := List.mem_map.1 hp
    exact isSequence_of_isCharacter (Utf8.isCharacter_utf8EncodeChar c)

/-! ## Ends -/

/-- The byte string ends inside a sequence: after some byte there are fewer bytes than it
announces. -/
def EndsInside (bytes : List UInt8) : Prop :=
  ∃ before lead after, bytes = before ++ lead :: after ∧ after.length < announced lead

/-- A byte that announces others is none that continues. -/
theorem not_isTail_of_announced {lead : UInt8} (h : 0 < announced lead) : ¬IsTail lead := by
  refine not_isTail (.inr (Nat.not_lt.1 fun hlead => ?_))
  rw [announced, if_pos hlead] at h
  exact Nat.lt_irrefl 0 h

/-- **A byte string that ends inside a sequence** cannot be read. -/
theorem decode_of_endsInside {bytes : List UInt8} (h : EndsInside bytes) : decode bytes = none := by
  obtain ⟨before, lead, after, rfl, hshort⟩ := h
  refine Option.eq_none_iff_forall_ne_some.2 fun text htext => ?_
  obtain ⟨parts, heq, hparts⟩ := exists_sequences_of_decode htext
  have hlead := not_isTail_of_announced (by omega : 0 < announced lead)
  obtain ⟨ps, tail, qs, rfl, -, rfl⟩ := exists_split_of_lead hparts hlead heq.symm
  cases hparts _ (List.mem_append_right ps List.mem_cons_self) with
  | intro _ _ hlength =>
    rw [List.length_append] at hshort
    omega

/-- **A byte string with a zero byte** cannot be read. -/
theorem decode_of_zero_mem {bytes : List UInt8} (h : 0 ∈ bytes) : decode bytes = none := by
  have hunits : decode bytes = decodeUnits bytes := if_pos (by simpa using h)
  refine Option.eq_none_iff_forall_ne_some.2 fun text htext => ?_
  exact absurd (byte_bounds_of_decodeUnits (hunits ▸ htext) h).1 (Nat.lt_irrefl 0)

/-! ## Surrogates -/

/-- The bytes of a unit that opens a surrogate pair. -/
def IsHighBytes (body : List UInt8) : Prop := ∃ u, IsUnit body u ∧ 0xd800 ≤ u ∧ u < 0xdc00

/-- The bytes of a unit that closes a surrogate pair. -/
def IsLowBytes (body : List UInt8) : Prop := ∃ u, IsUnit body u ∧ 0xdc00 ≤ u ∧ u < 0xe000

/-- Somewhere in the byte string stand the bytes of a surrogate without those of its partner. -/
inductive LoneSurrogate (bytes : List UInt8) : Prop
  /-- Behind a surrogate that opens a pair there is none that closes one. -/
  | high {before body after : List UInt8} : bytes = before ++ (body ++ after) → IsHighBytes body →
    (¬∃ low rest, IsLowBytes low ∧ after = low ++ rest) → LoneSurrogate bytes
  /-- In front of a surrogate that closes a pair there is none that opens one. -/
  | low {before body after : List UInt8} : bytes = before ++ (body ++ after) → IsLowBytes body →
    (¬∃ rest high, IsHighBytes high ∧ before = rest ++ high) → LoneSurrogate bytes

/-- **In the units of a text, surrogates stand in pairs.**

**Proof sketch.** Induction on the text. A surrogate among the units of the first character is half
of the pair that they are, and any other one is found among the units of the rest. -/
theorem paired_of_flatMap {text : List Char} {before after : List Nat} {u : Nat}
    (h : text.flatMap charUnits = before ++ u :: after) :
    (0xd800 ≤ u ∧ u < 0xdc00 → ∃ v rest, after = v :: rest ∧ 0xdc00 ≤ v ∧ v < 0xe000) ∧
    (0xdc00 ≤ u ∧ u < 0xe000 → ∃ rest v, before = rest ++ [v] ∧ 0xd800 ≤ v ∧ v < 0xdc00) := by
  induction text generalizing before with
  | nil => simp at h
  | cons c text ih =>
    rw [List.flatMap_cons] at h
    rcases charUnits_cases c with ⟨hc, -, hhigh, hlow⟩ | ⟨v, w, hc, hv, hw, -⟩
    · simp only [isHighSurrogate, isLowSurrogate, Bool.and_eq_false_iff,
        decide_eq_false_iff_not] at hhigh hlow
      rw [hc, List.singleton_append] at h
      cases before with
      | nil =>
        obtain ⟨rfl, -⟩ := List.cons.inj h
        exact ⟨fun _ => by omega, fun _ => by omega⟩
      | cons b before =>
        obtain ⟨hopens, hcloses⟩ := ih (List.cons.inj h).2
        refine ⟨hopens, fun hu => ?_⟩
        obtain ⟨rest, v, rfl, hv⟩ := hcloses hu
        exact ⟨b :: rest, v, rfl, hv⟩
    · simp only [isHighSurrogate, isLowSurrogate, Bool.and_eq_true, decide_eq_true_eq] at hv hw
      rw [hc, List.cons_append, List.singleton_append] at h
      cases before with
      | nil =>
        obtain ⟨rfl, rfl⟩ := List.cons.inj h
        exact ⟨fun _ => ⟨w, _, rfl, hw⟩, fun _ => by omega⟩
      | cons b before =>
        obtain ⟨hb, h⟩ := List.cons.inj h
        cases before with
        | nil =>
          obtain ⟨rfl, -⟩ := List.cons.inj h
          exact ⟨fun _ => by omega, fun _ => ⟨[], b, rfl, hb ▸ hv⟩⟩
        | cons b' before =>
          obtain ⟨hopens, hcloses⟩ := ih (List.cons.inj h).2
          refine ⟨hopens, fun hu => ?_⟩
          obtain ⟨rest, v, rfl, hv⟩ := hcloses hu
          exact ⟨b :: b' :: rest, v, rfl, hv⟩

/-- The bytes of a unit write no other unit. -/
theorem IsUnit.unique {body : List UInt8} {u v : Nat} (hu : IsUnit body u) (hv : IsUnit body v) :
    u = v := by
  have h := (units_append hu []).symm.trans (units_append hv [])
  simpa [units] using h

/-- No character of plain UTF-8 has the bytes of a surrogate. -/
theorem not_isCharacter_of_surrogate {body : List UInt8} {u n : Nat} (hu : IsUnit body u)
    (hrange : 0xd800 ≤ u ∧ u < 0xe000) : ¬IsCharacter body n := by
  intro hn
  cases hu with
  | one => omega
  | two _ _ hb =>
    unfold IsTail at hb
    omega
  | three _ _ hb hc =>
    unfold IsTail at hb hc
    cases hn
    omega

/-- What is related to two lists, one behind the other, is two lists as well. -/
theorem exists_append_of_forall₂ {α β : Type} {R : α → β → Prop} {as₁ as₂ : List α} {bs : List β}
    (h : List.Forall₂ R (as₁ ++ as₂) bs) :
    ∃ bs₁ bs₂, bs = bs₁ ++ bs₂ ∧ List.Forall₂ R as₁ bs₁ ∧ List.Forall₂ R as₂ bs₂ :=
  ⟨bs.take as₁.length, bs.drop as₁.length, (List.take_append_drop ..).symm,
    (List.forall₂_take_append bs as₁ as₂ h.flip).flip,
    (List.forall₂_drop_append bs as₁ as₂ h.flip).flip⟩

/-- **A surrogate in what is read** is one of the units of the text.

A surrogate starts with a leading byte, so that its bytes are one of the sequences, and these cannot
be the characters of plain UTF-8. -/
theorem exists_units_around {before body after : List UInt8} {text : List Char} {u : Nat}
    (h : decode (before ++ (body ++ after)) = some text) (hu : IsUnit body u)
    (hrange : 0xd800 ≤ u ∧ u < 0xe000) :
    ∃ ps qs us₁ us₂, before = ps.flatten ∧ after = qs.flatten ∧ List.Forall₂ IsUnit ps us₁ ∧
      List.Forall₂ IsUnit qs us₂ ∧ text.flatMap charUnits = us₁ ++ u :: us₂ := by
  rcases decode_cases (before ++ (body ++ after)) with heq | ⟨plain, heq, -, -⟩
  · obtain ⟨parts, hbytes, hparts⟩ := decodeUnits_eq_some_iff.1 (heq ▸ h)
    have hsequences : ∀ p ∈ parts, IsSequence p :=
      fun p hp => (exists_unit_of_mem hparts hp).choose_spec.isSequence
    obtain ⟨ps, qs, rfl, hps, hqs⟩ := exists_split_of_sequence hsequences hu.isSequence hbytes
    obtain ⟨us₁, us, hus, hus₁, hrow⟩ := exists_append_of_forall₂ hparts
    cases hrow with
    | @cons _ u' _ us₂ hu' hus₂ =>
      obtain rfl := hu.unique hu'
      exact ⟨ps, qs, us₁, us₂, hps, hqs, hus₁, hus₂, hus⟩
  · have hsequences : ∀ p ∈ plain.map String.utf8EncodeChar, IsSequence p := by
      intro p hp
      obtain ⟨c, -, rfl⟩ := List.mem_map.1 hp
      exact isSequence_of_isCharacter (Utf8.isCharacter_utf8EncodeChar c)
    obtain ⟨ps, qs, hplain, -, -⟩ := exists_split_of_sequence hsequences hu.isSequence heq
    have hmem : body ∈ plain.map String.utf8EncodeChar :=
      hplain ▸ List.mem_append_right ps List.mem_cons_self
    obtain ⟨c, -, hc⟩ := List.mem_map.1 hmem
    exact absurd (hc ▸ Utf8.isCharacter_utf8EncodeChar c) (not_isCharacter_of_surrogate hu hrange)

/-- **A byte string with a surrogate that is no half of a pair** cannot be read. -/
theorem decode_of_loneSurrogate {bytes : List UInt8} (h : LoneSurrogate bytes) :
    decode bytes = none := by
  refine Option.eq_none_iff_forall_ne_some.2 fun text htext => ?_
  cases h with
  | high hbytes hbody hlone =>
    obtain ⟨u, hu, hlow, hhigh⟩ := hbody
    subst hbytes
    obtain ⟨ps, qs, us₁, us₂, -, rfl, -, hqs, hunits⟩ :=
      exists_units_around htext hu ⟨hlow, by omega⟩
    obtain ⟨v, rest, rfl, hv⟩ := (paired_of_flatMap hunits).1 ⟨hlow, hhigh⟩
    cases hqs with
    | cons head _ => exact hlone ⟨_, _, ⟨v, head, hv⟩, rfl⟩
  | low hbytes hbody hlone =>
    obtain ⟨u, hu, hlow, hhigh⟩ := hbody
    subst hbytes
    obtain ⟨ps, qs, us₁, us₂, rfl, -, hps, -, hunits⟩ :=
      exists_units_around htext hu ⟨by omega, hhigh⟩
    obtain ⟨rest, v, rfl, hv⟩ := (paired_of_flatMap hunits).2 ⟨hlow, hhigh⟩
    obtain ⟨ps₁, ps₂, rfl, -, hlast⟩ := exists_append_of_forall₂ hps.flip
    cases hlast with
    | @cons _ part _ _ head tail =>
      cases tail
      exact hlone ⟨ps₁.flatten, part, ⟨v, head, hv⟩, by simp⟩

/-! ## Written texts and malformed ones -/

/-- **What is written is read, and what is malformed is refused.** A text of any characters reads
back from its bytes; a byte string with a zero byte, one that ends inside a sequence and one with a
surrogate without its partner cannot be read. -/
theorem decode_encode_and_refusals :
    (∀ text, decode (encode text) = some text) ∧
    ∀ bytes, 0 ∈ bytes ∨ EndsInside bytes ∨ LoneSurrogate bytes → decode bytes = none := by
  refine ⟨decode_encode, fun bytes h => ?_⟩
  rcases h with h | h | h
  · exact decode_of_zero_mem h
  · exact decode_of_endsInside h
  · exact decode_of_loneSurrogate h

/-- A text with a zero and a character beyond sixteen bits is read; a zero byte, an end after two of
three bytes and half a pair with a letter behind it are refused. -/
theorem decode_encode_and_refusals_samples :
    decode (encode ['a', Char.ofNat 0, Char.ofNat 0x1f600]) =
      some ['a', Char.ofNat 0, Char.ofNat 0x1f600] ∧
    decode [0x61, 0x00] = none ∧
    (EndsInside [0x61, 0xe2, 0x82] ∧ decode [0x61, 0xe2, 0x82] = none) ∧
    LoneSurrogate [0xed, 0xa0, 0xbd, 0x61] ∧ decode [0xed, 0xa0, 0xbd, 0x61] = none := by
  obtain ⟨hread, hrefused⟩ := decode_encode_and_refusals
  have hends : EndsInside [0x61, 0xe2, 0x82] := ⟨[0x61], 0xe2, [0x82], rfl, by decide⟩
  have htail : ∀ b : UInt8, 0x80 ≤ b.toNat ∧ b.toNat ≤ 0xbf → IsTail b := fun _ h => h
  have hunit : IsUnit [0xed, 0xa0, 0xbd] 0xd83d :=
    .three (by decide) (by decide) (htail _ (by decide)) (htail _ (by decide))
  have hhigh : IsHighBytes [0xed, 0xa0, 0xbd] := ⟨0xd83d, hunit, by decide⟩
  have hlone : LoneSurrogate [0xed, 0xa0, 0xbd, 0x61] := by
    have hsplit : [0xed, 0xa0, 0xbd, 0x61] = [] ++ ([0xed, 0xa0, 0xbd] ++ [(0x61 : UInt8)]) := rfl
    refine .high hsplit hhigh ?_
    rintro ⟨low, rest, ⟨u, hu, hrange⟩, hlow⟩
    cases hu with
    | one => omega
    | two _ _ hb =>
      unfold IsTail at hb
      omega
    | three => cases hlow
  exact ⟨hread _, hrefused _ (.inl (by decide)), ⟨hends, hrefused _ (.inr (.inl hends))⟩, hlone,
    hrefused _ (.inr (.inr hlone))⟩

/-- A zero takes two bytes, and a character beyond sixteen bits takes two units of three. -/
example : encode ['a', Char.ofNat 0, Char.ofNat 0x1f600] =
    [0x61, 0xc0, 0x80, 0xed, 0xa0, 0xbd, 0xed, 0xb8, 0x80] := by
  decide

end ClassAccess.ModifiedUtf8
