import ClassAccess.Proofs.ClassFile.ModifiedUtf8

/-!
# The shortcut through plain UTF-8

Bytes that are plain UTF-8 and have no zero among them are read as such. Reading them unit by unit
gives the same text, unless some character is beyond sixteen bits: plain UTF-8 writes it with four
bytes, of which the first one starts no unit.

## Main definitions

* `ModifiedUtf8.PlainBeyond` — plain UTF-8 without a zero and with a character beyond sixteen bits.

## Main results

* `ModifiedUtf8.decodeUnits_utf8` — plain UTF-8 within sixteen bits, read unit by unit.
* `ModifiedUtf8.decode_cases` — the shortcut changes nothing but for characters beyond sixteen bits.
* `ModifiedUtf8.decode_encode` — the bytes of a text read as that text.
* `ModifiedUtf8.decode_eq_decodeUnits_iff` — where the shortcut and the reader of units agree.
-/

set_option autoImplicit false

namespace ClassAccess.ModifiedUtf8

open Utf8 (IsTail IsCharacter)

/-! ## Characters in plain UTF-8 -/

/-- A character within sixteen bits that is not zero has the same bytes as its unit. -/
theorem isUnit_of_isCharacter {body : List UInt8} {n : Nat} (h : IsCharacter body n) (h0 : n ≠ 0)
    (hn : n < 0x10000) : IsUnit body n := by
  cases h with
  | one ha => exact .one (Nat.pos_of_ne_zero h0) ha
  | two h1 h2 hb => exact .two (by omega) h2 hb
  | three h1 h2 hb hc => exact .of_eq (.three h1 h2 hb hc) (by omega)
  | four h1 h2 hb hc hd hlow =>
    unfold IsTail at hb hc hd
    omega

/-- A character beyond sixteen bits has a byte that no unit has. -/
theorem exists_byte_of_beyond {body : List UInt8} {n : Nat} (h : IsCharacter body n)
    (hn : 0x10000 ≤ n) : ∃ b ∈ body, 0xf0 ≤ b.toNat := by
  cases h with
  | one => omega
  | two _ _ hb =>
    unfold IsTail at hb
    omega
  | three _ _ hb hc =>
    unfold IsTail at hb hc
    omega
  | four h1 => exact ⟨_, List.mem_cons_self, h1⟩

/-- The zero character is a zero byte. -/
theorem zero_mem_of_isCharacter {body : List UInt8} (h : IsCharacter body 0) : 0 ∈ body := by
  generalize hn : 0 = n at h
  cases h with
  | @one a =>
    have ha : a = 0 := UInt8.toNat_inj.1 hn.symm
    rw [ha]
    exact List.mem_singleton_self 0
  | two | three | four =>
    unfold IsTail at *
    omega

/-- A character of a text has its bytes among those of the text. -/
theorem mem_utf8_of_mem {text : List Char} {c : Char} (hc : c ∈ text) {b : UInt8}
    (hb : b ∈ String.utf8EncodeChar c) : b ∈ Utf8.encode text :=
  List.mem_flatMap.2 ⟨c, hc, hb⟩

/-- **Plain UTF-8 within sixteen bits** reads as the same text unit by unit, if there is no zero. -/
theorem decodeUnits_utf8 {text : List Char} (h0 : 0 ∉ Utf8.encode text)
    (hn : ∀ c ∈ text, c.toNat < 0x10000) : decodeUnits (Utf8.encode text) = some text := by
  have hunits : text.flatMap charUnits = text.map Char.toNat := by
    rw [← List.flatMap_singleton' (text.map Char.toNat), List.flatMap_map]
    refine List.flatMap_congr fun c hc => ?_
    rw [charUnits, if_pos (hn c hc)]
  refine decodeUnits_eq_some_iff.2 ⟨text.map String.utf8EncodeChar, rfl, ?_⟩
  rw [hunits, List.forall₂_map_left_iff, List.forall₂_map_right_iff, List.forall₂_same]
  intro c hc
  have hchar := Utf8.isCharacter_utf8EncodeChar c
  refine isUnit_of_isCharacter hchar (fun hzero => h0 ?_) (hn c hc)
  exact mem_utf8_of_mem hc (zero_mem_of_isCharacter (hzero ▸ hchar))

/-! ## The shortcut -/

/-- The bytes are plain UTF-8 for a text, without a zero byte but with a character beyond sixteen
bits. -/
structure PlainBeyond (bytes : List UInt8) (text : List Char) : Prop where
  /-- The bytes are those of the text in plain UTF-8. -/
  bytes_eq : bytes = Utf8.encode text
  /-- No byte is zero. -/
  zero_not_mem : 0 ∉ bytes
  /-- Some character is beyond sixteen bits. -/
  beyond : ∃ c ∈ text, 0x10000 ≤ c.toNat

/-- Plain UTF-8 without a zero byte reads as its text. -/
theorem decode_utf8 {text : List Char} (h0 : 0 ∉ Utf8.encode text) :
    decode (Utf8.encode text) = some text := by
  rw [decode, if_neg (by simpa using h0), Utf8.decode_eq_ok_iff.2 rfl]

/-- Unit by unit, a character beyond sixteen bits in plain UTF-8 cannot be read. -/
theorem PlainBeyond.decodeUnits_eq_none {bytes : List UInt8} {text : List Char}
    (h : PlainBeyond bytes text) : decodeUnits bytes = none := by
  obtain ⟨rfl, -, c, hc, hbeyond⟩ := h
  obtain ⟨b, hb, hlead⟩ := exists_byte_of_beyond (Utf8.isCharacter_utf8EncodeChar c) hbeyond
  refine Option.eq_none_iff_forall_ne_some.2 fun text' htext => ?_
  have := byte_bounds_of_decodeUnits htext (mem_utf8_of_mem hc hb)
  omega

/-- **The shortcut changes nothing but for characters beyond sixteen bits.** -/
theorem decode_cases (bytes : List UInt8) :
    decode bytes = decodeUnits bytes ∨ ∃ text, PlainBeyond bytes text := by
  by_cases h0 : 0 ∈ bytes
  · exact .inl (if_pos (by simpa using h0))
  cases hplain : Utf8.decode bytes with
  | error e =>
    left
    rw [decode, if_neg (by simpa using h0), hplain]
  | ok text =>
    obtain rfl := Utf8.decode_eq_ok_iff.1 hplain
    by_cases hn : ∀ c ∈ text, c.toNat < 0x10000
    · left
      rw [decode_utf8 h0, decodeUnits_utf8 h0 hn]
    · simp only [not_forall, Nat.not_lt] at hn
      obtain ⟨c, hc, hbeyond⟩ := hn
      exact .inr ⟨text, rfl, h0, c, hc, hbeyond⟩

/-- Bytes that may all stand in units are read unit by unit. -/
theorem decode_eq_decodeUnits {bytes : List UInt8} (h : ∀ b ∈ bytes, b.toNat < 0xf0) :
    decode bytes = decodeUnits bytes := by
  rcases decode_cases bytes with heq | ⟨text, rfl, -, c, hc, hbeyond⟩
  · exact heq
  · obtain ⟨b, hb, hlead⟩ := exists_byte_of_beyond (Utf8.isCharacter_utf8EncodeChar c) hbeyond
    have := h b (mem_utf8_of_mem hc hb)
    omega

/-- What is read unit by unit is read alike with the shortcut. -/
theorem decode_of_decodeUnits {bytes : List UInt8} {text : List Char}
    (h : decodeUnits bytes = some text) : decode bytes = some text := by
  rw [decode_eq_decodeUnits fun b hb => (byte_bounds_of_decodeUnits h hb).2, h]

/-- **The bytes of a text read as that text.** -/
theorem decode_encode (text : List Char) : decode (encode text) = some text :=
  decode_of_decodeUnits (decodeUnits_encode text)

/-- **The shortcut and the reader of units agree** unless the bytes are plain UTF-8, without a zero,
with a character beyond sixteen bits: then the shortcut alone reads them. While no byte is one that
starts such a character, how a part is read does not depend on the text in front of it. -/
theorem decode_eq_decodeUnits_iff (bytes : List UInt8) :
    (decode bytes = decodeUnits bytes ↔ ¬∃ text, PlainBeyond bytes text) ∧
    (∀ text, PlainBeyond bytes text → decode bytes = some text ∧ decodeUnits bytes = none) ∧
    ((∀ b ∈ bytes, b < 0xf0) → ∀ front text, (∀ b ∈ front, b < 0xf0) → decode front = some text →
      decode (front ++ bytes) = (decode bytes).map (text ++ ·)) := by
  have hbeyond : ∀ text, PlainBeyond bytes text →
      decode bytes = some text ∧ decodeUnits bytes = none := by
    intro text h
    refine ⟨?_, h.decodeUnits_eq_none⟩
    rw [h.bytes_eq]
    exact decode_utf8 (h.bytes_eq ▸ h.zero_not_mem)
  refine ⟨⟨?_, ?_⟩, hbeyond, ?_⟩
  · rintro heq ⟨text, h⟩
    obtain ⟨hread, hrefused⟩ := hbeyond text h
    rw [hread, hrefused] at heq
    cases heq
  · exact fun h => (decode_cases bytes).resolve_right h
  · intro hbytes front text hfront hread
    have hboth : ∀ b ∈ front ++ bytes, b.toNat < 0xf0 := by
      intro b hb
      exact (List.mem_append.1 hb).elim (hfront b) (hbytes b)
    rw [decode_eq_decodeUnits hfront] at hread
    rw [decode_eq_decodeUnits hboth, decode_eq_decodeUnits hbytes, decodeUnits_append hread]

/-- The agreement at four bytes of plain UTF-8 for one character, and at two texts within sixteen
bits that are put together. -/
theorem decode_eq_decodeUnits_iff_samples :
    PlainBeyond [0xf0, 0x9f, 0x98, 0x80] [Char.ofNat 0x1f600] ∧
    decode [0xf0, 0x9f, 0x98, 0x80] ≠ decodeUnits [0xf0, 0x9f, 0x98, 0x80] ∧
    decode ([0xc0, 0x80] ++ [0xed, 0xa0, 0xbd, 0xed, 0xb8, 0x80]) =
      some [Char.ofNat 0, Char.ofNat 0x1f600] := by
  have hplain : PlainBeyond [0xf0, 0x9f, 0x98, 0x80] [Char.ofNat 0x1f600] :=
    ⟨by decide, by decide, _, List.mem_singleton_self _, by decide⟩
  have hread := (decode_eq_decodeUnits_iff [0xf0, 0x9f, 0x98, 0x80]).2.1 _ hplain
  refine ⟨hplain, ?_, ?_⟩
  · rw [hread.1, hread.2]
    exact Option.some_ne_none _
  · rw [(decode_eq_decodeUnits_iff [0xed, 0xa0, 0xbd, 0xed, 0xb8, 0x80]).2.2 (by simp) [0xc0, 0x80]
      [Char.ofNat 0] (by simp) (by decide)]
    decide

/-- The shortcut reads a character that the reader of units refuses, and refuses it again when a
zero character stands in front of it. -/
theorem shortcut_reads_more :
    decode [0xf0, 0x9f, 0x98, 0x80] = some [Char.ofNat 0x1f600] ∧
    decodeUnits [0xf0, 0x9f, 0x98, 0x80] = none ∧
    decode [0xc0, 0x80] = some [Char.ofNat 0] ∧
    decode ([0xc0, 0x80] ++ [0xf0, 0x9f, 0x98, 0x80]) = none := by
  decide

end ClassAccess.ModifiedUtf8
