import ClassAccess.ClassFile.ModifiedUtf8
import ClassAccess.Proofs.Text.Utf8

/-!
# Reading modified UTF-8 unit by unit

The reader of units takes a byte string apart into the bytes of its units, and the units into
characters. A character is found at the front without looking at what stands behind it.

## Main definitions

* `ModifiedUtf8.IsUnit` — the bytes of one unit, by its value.

## Main results

* `ModifiedUtf8.units_eq_some_iff` — which byte strings write which units.
* `ModifiedUtf8.ofUnits_eq_some_iff` — which units make up which text.
* `ModifiedUtf8.decodeUnits_eq_some_iff` — the two together.
* `ModifiedUtf8.decodeUnits_append` — a text in front does not change how the rest is read.
* `ModifiedUtf8.decodeUnits_encode` — the bytes of a text read as that text.
-/

set_option autoImplicit false

namespace ClassAccess.ModifiedUtf8

open Utf8 (IsTail)

/-! ## The bytes of a unit -/

/-- The bytes of a unit. Nothing ties their number to the value, apart from the zero unit, which is
never a single byte. -/
inductive IsUnit : List UInt8 → Nat → Prop
  /-- A unit of one byte. -/
  | one {a : UInt8} : 0 < a.toNat → a.toNat < 0x80 → IsUnit [a] a.toNat
  /-- A unit of two bytes. -/
  | two {a b : UInt8} : 0xc0 ≤ a.toNat → a.toNat < 0xe0 → IsTail b →
    IsUnit [a, b] ((a.toNat - 0xc0) * 64 + (b.toNat - 0x80))
  /-- A unit of three bytes. -/
  | three {a b c : UInt8} : 0xe0 ≤ a.toNat → a.toNat < 0xf0 → IsTail b → IsTail c →
    IsUnit [a, b, c] ((a.toNat - 0xe0) * 4096 + (b.toNat - 0x80) * 64 + (c.toNat - 0x80))

/-- The bytes of a unit are also those of its value written in another way. -/
theorem IsUnit.of_eq {body : List UInt8} {u v : Nat} (h : IsUnit body u) (huv : u = v) :
    IsUnit body v :=
  huv ▸ h

/-- A unit has sixteen bits. -/
theorem IsUnit.lt {body : List UInt8} {u : Nat} (h : IsUnit body u) : u < 0x10000 := by
  cases h with
  | one => omega
  | two _ _ hb => unfold IsTail at hb; omega
  | three _ _ hb hc => unfold IsTail at hb hc; omega

/-- No byte of a unit is zero, and none is as great as those that start four bytes of plain
UTF-8. -/
theorem IsUnit.byte_bounds {body : List UInt8} {u : Nat} (h : IsUnit body u) {b : UInt8}
    (hb : b ∈ body) : 0 < b.toNat ∧ b.toNat < 0xf0 := by
  cases h with
  | one =>
    obtain rfl := List.mem_singleton.1 hb
    omega
  | two _ _ hc =>
    unfold IsTail at hc
    simp only [List.mem_cons, List.not_mem_nil, or_false] at hb
    rcases hb with rfl | rfl <;> omega
  | three _ _ hc hd =>
    unfold IsTail at hc hd
    simp only [List.mem_cons, List.not_mem_nil, or_false] at hb
    rcases hb with rfl | rfl | rfl <;> omega

/-- **Every value of sixteen bits has bytes** that are those of a unit. -/
theorem isUnit_unitBytes {u : Nat} (hu : u < 0x10000) : IsUnit (unitBytes u) u := by
  have hbyte : ∀ m, (UInt8.ofNat m).toNat = m % 256 := fun m => UInt8.toNat_ofNat' ..
  have htail : ∀ m, IsTail (UInt8.ofNat (0x80 + m % 64)) := by
    intro m
    rw [IsTail, hbyte]
    omega
  rw [unitBytes]
  split_ifs with h1 h2
  · exact .of_eq (.one (by rw [hbyte]; omega) (by rw [hbyte]; omega)) (by rw [hbyte]; omega)
  · exact .of_eq (.two (by rw [hbyte]; omega) (by rw [hbyte]; omega) (htail u))
      (by rw [hbyte, hbyte]; omega)
  · exact .of_eq (.three (by rw [hbyte]; omega) (by rw [hbyte]; omega) (htail (u / 64)) (htail u))
      (by rw [hbyte, hbyte, hbyte]; omega)

/-! ## Reading units -/

/-- The bits of a byte that continues a unit. -/
theorem continuation?_eq_some_iff {b : UInt8} {n : Nat} :
    continuation? b = some n ↔ IsTail b ∧ b.toNat - 0x80 = n := by
  have hrange : (0x80 ≤ b ∧ b < 0xc0) ↔ IsTail b := by
    simp only [UInt8.le_iff_toNat_le, UInt8.lt_iff_toNat_lt, UInt8.reduceToNat, IsTail]
    omega
  rw [continuation?]
  split_ifs with h
  · simp [hrange.1 h]
  · simp [mt hrange.2 h]

/-- What the reader does, by the number of the first byte. -/
theorem units_cons (b : UInt8) (rest : List UInt8) :
    units (b :: rest) =
      if b.toNat = 0 then none
      else if b.toNat < 0x80 then (units rest).map (b.toNat :: ·)
      else if b.toNat < 0xc0 then none
      else if b.toNat < 0xe0 then
        match rest with
        | [] => none
        | c :: rest => (continuation? c).bind fun low =>
          (units rest).map (((b.toNat - 0xc0) * 64 + low) :: ·)
      else if b.toNat < 0xf0 then
        match rest with
        | c :: d :: rest => (continuation? c).bind fun middle => (continuation? d).bind fun low =>
          (units rest).map (((b.toNat - 0xe0) * 4096 + middle * 64 + low) :: ·)
        | _ => none
      else none := by
  rw [units.eq_def]
  simp only [UInt8.lt_iff_toNat_lt, ← UInt8.toNat_inj, UInt8.reduceToNat, bind_pure_comp,
    Option.map_eq_map]
  rfl

/-- The reader takes a unit off the front. -/
theorem units_append {body : List UInt8} {u : Nat} (h : IsUnit body u) (rest : List UInt8) :
    units (body ++ rest) = (units rest).map (u :: ·) := by
  cases h with
  | one h1 h2 => rw [List.singleton_append, units_cons, if_neg (by omega), if_pos h2]
  | two h1 h2 hb =>
    rw [List.cons_append, units_cons, if_neg (by omega), if_neg (by omega), if_neg (by omega),
      if_pos h2]
    simp [continuation?_eq_some_iff.2 ⟨hb, rfl⟩]
  | three h1 h2 hb hc =>
    rw [List.cons_append, units_cons, if_neg (by omega), if_neg (by omega), if_neg (by omega),
      if_neg (by omega), if_pos h2]
    simp [continuation?_eq_some_iff.2 ⟨hb, rfl⟩, continuation?_eq_some_iff.2 ⟨hc, rfl⟩]

/-- What the reader accepts and is not empty starts with a unit. -/
theorem exists_unit_of_units {b : UInt8} {bytes : List UInt8} {us : List Nat}
    (h : units (b :: bytes) = some us) : ∃ body u rest us', b :: bytes = body ++ rest ∧
      IsUnit body u ∧ units rest = some us' ∧ us = u :: us' := by
  rw [units_cons] at h
  split_ifs at h with h0 h1 h2 h3 h4
  · obtain ⟨us', hrest, rfl⟩ := Option.map_eq_some_iff.1 h
    exact ⟨[b], _, bytes, us', rfl, .one (by omega) h1, hrest, rfl⟩
  · cases bytes with
    | nil => cases h
    | cons c bytes =>
      obtain ⟨low, hlow, h⟩ := Option.bind_eq_some_iff.1 h
      obtain ⟨us', hrest, rfl⟩ := Option.map_eq_some_iff.1 h
      obtain ⟨hc, rfl⟩ := continuation?_eq_some_iff.1 hlow
      exact ⟨[b, c], _, bytes, us', rfl, .two (by omega) h3 hc, hrest, rfl⟩
  · match bytes, h with
    | c :: d :: bytes, h =>
      obtain ⟨middle, hmiddle, h⟩ := Option.bind_eq_some_iff.1 h
      obtain ⟨low, hlow, h⟩ := Option.bind_eq_some_iff.1 h
      obtain ⟨us', hrest, rfl⟩ := Option.map_eq_some_iff.1 h
      obtain ⟨hc, rfl⟩ := continuation?_eq_some_iff.1 hmiddle
      obtain ⟨hd, rfl⟩ := continuation?_eq_some_iff.1 hlow
      exact ⟨[b, c, d], _, bytes, us', rfl, .three (by omega) h4 hc hd, hrest, rfl⟩

section Parts

variable {parts : List (List UInt8)} {us : List Nat}

/-- The reader takes the bytes of many units off the front. -/
theorem units_flatten_append (h : List.Forall₂ IsUnit parts us) (rest : List UInt8) :
    units (parts.flatten ++ rest) = (units rest).map (us ++ ·) := by
  induction h with
  | nil => simp
  | cons head _ ih =>
    rw [List.flatten_cons, List.append_assoc, units_append head, ih, Option.map_map]
    rfl

/-- Whatever is written unit by unit has sixteen bits each. -/
theorem lt_of_mem_units (h : List.Forall₂ IsUnit parts us) {u : Nat} (hu : u ∈ us) :
    u < 0x10000 := by
  induction h with
  | nil => cases hu
  | cons head _ ih =>
    rcases List.mem_cons.1 hu with rfl | hu
    · exact head.lt
    · exact ih hu

/-- Each part of what is written unit by unit is a unit. -/
theorem exists_unit_of_mem (h : List.Forall₂ IsUnit parts us) {body : List UInt8}
    (hbody : body ∈ parts) : ∃ u, IsUnit body u := by
  induction h with
  | nil => cases hbody
  | cons head _ ih =>
    rcases List.mem_cons.1 hbody with rfl | hbody
    · exact ⟨_, head⟩
    · exact ih hbody

end Parts

/-- **A byte string writes units** exactly if it is made of the bytes of these units. -/
theorem units_eq_some_iff {bytes : List UInt8} {us : List Nat} :
    units bytes = some us ↔
      ∃ parts : List (List UInt8), bytes = parts.flatten ∧ List.Forall₂ IsUnit parts us := by
  constructor
  · intro h
    -- The induction is on the units, of which the reader takes one at a time.
    induction us generalizing bytes with
    | nil =>
      cases bytes with
      | nil => exact ⟨[], rfl, .nil⟩
      | cons b bytes =>
        obtain ⟨_, _, _, _, -, -, -, h⟩ := exists_unit_of_units h
        cases h
    | cons u us ih =>
      cases bytes with
      | nil => cases h
      | cons b bytes =>
        obtain ⟨body, _, rest, _, hbytes, hbody, hrest, h⟩ := exists_unit_of_units h
        cases h
        obtain ⟨parts, rfl, hparts⟩ := ih hrest
        exact ⟨body :: parts, hbytes, .cons hbody hparts⟩
  · rintro ⟨parts, rfl, h⟩
    rw [← List.append_nil parts.flatten, units_flatten_append h]
    simp [units]

/-! ## Reading characters -/

/-- Two surrogates are the units of the character that they stand for. -/
theorem charUnits_of_pair {u v : Nat} (hu : isHighSurrogate u = true)
    (hv : isLowSurrogate v = true) :
    charUnits (Char.ofNat (0x10000 + (u - 0xd800) * 0x400 + (v - 0xdc00))) = [u, v] := by
  simp only [isHighSurrogate, isLowSurrogate, Bool.and_eq_true, decide_eq_true_eq] at hu hv
  have hcode : (Char.ofNat (0x10000 + (u - 0xd800) * 0x400 + (v - 0xdc00))).toNat =
      0x10000 + (u - 0xd800) * 0x400 + (v - 0xdc00) := Utf8.toNat_ofNat_of_valid (by omega)
  rw [charUnits, hcode, if_neg (by omega)]
  simp only [List.cons.injEq, and_true]
  omega

/-- Any other unit is that of a character of its own. -/
theorem charUnits_of_unit {u : Nat} (hu : u < 0x10000) (hhigh : ¬isHighSurrogate u = true)
    (hlow : ¬isLowSurrogate u = true) : charUnits (Char.ofNat u) = [u] := by
  simp only [isHighSurrogate, isLowSurrogate, Bool.and_eq_true, decide_eq_true_eq] at hhigh hlow
  have hcode : (Char.ofNat u).toNat = u := Utf8.toNat_ofNat_of_valid (by omega)
  rw [charUnits, hcode, if_pos hu]

/-- The units of a character: one that is no surrogate, or a pair of surrogates. -/
theorem charUnits_cases (c : Char) :
    (charUnits c = [c.toNat] ∧ c.toNat < 0x10000 ∧ isHighSurrogate c.toNat = false ∧
      isLowSurrogate c.toNat = false) ∨
    ∃ u v, charUnits c = [u, v] ∧ isHighSurrogate u = true ∧ isLowSurrogate v = true ∧
      0x10000 + (u - 0xd800) * 0x400 + (v - 0xdc00) = c.toNat := by
  have hvalid : c.toNat < 0xd800 ∨ 0xdfff < c.toNat ∧ c.toNat < 0x110000 := c.valid
  rw [charUnits]
  simp only [isHighSurrogate, isLowSurrogate, Bool.and_eq_true, Bool.and_eq_false_iff,
    decide_eq_true_eq, decide_eq_false_iff_not]
  split_ifs with h
  · exact .inl ⟨rfl, h, by omega, by omega⟩
  · exact .inr ⟨_, _, rfl, by omega, by omega, by omega⟩

/-- The units of a character have sixteen bits. -/
theorem lt_of_mem_charUnits {c : Char} {u : Nat} (h : u ∈ charUnits c) : u < 0x10000 := by
  rcases charUnits_cases c with ⟨hc, hlt, -⟩ | ⟨v, w, hc, hv, hw, -⟩
  · rw [hc, List.mem_singleton] at h
    omega
  · simp only [isHighSurrogate, isLowSurrogate, Bool.and_eq_true, decide_eq_true_eq] at hv hw
    simp only [hc, List.mem_cons, List.not_mem_nil, or_false] at h
    omega

/-- The reader takes a character off the front. -/
theorem ofUnits_append (c : Char) (rest : List Nat) :
    ofUnits (charUnits c ++ rest) = (ofUnits rest).map (c :: ·) := by
  rcases charUnits_cases c with ⟨hc, -, hhigh, hlow⟩ | ⟨u, v, hc, hu, hv, hcode⟩
  · rw [hc, List.singleton_append, ofUnits.eq_def]
    simp only [hhigh, hlow, Bool.false_eq_true, if_false, Char.ofNat_toNat, bind_pure_comp,
      Option.map_eq_map]
  · rw [hc, List.cons_append, List.singleton_append, ofUnits, if_pos hu]
    simp only [hv, if_true, hcode, Char.ofNat_toNat, bind_pure_comp, Option.map_eq_map]

/-- The reader takes a text off the front. -/
theorem ofUnits_flatMap_append (text : List Char) (rest : List Nat) :
    ofUnits (text.flatMap charUnits ++ rest) = (ofUnits rest).map (text ++ ·) := by
  induction text with
  | nil => simp
  | cons c text ih =>
    rw [List.flatMap_cons, List.append_assoc, ofUnits_append, ih, Option.map_map]
    rfl

/-- The units of a text read as that text. -/
theorem ofUnits_flatMap (text : List Char) : ofUnits (text.flatMap charUnits) = some text := by
  rw [← List.append_nil (text.flatMap charUnits), ofUnits_flatMap_append]
  simp [ofUnits]

/-- What reads as a text is made of the units of its characters.

**Proof sketch.** Induction along the reader. A pair of surrogates is the pair of the character that
was made of it, and any other unit that is read is a character. -/
theorem eq_flatMap_of_ofUnits {us : List Nat} {text : List Char} (hus : ∀ u ∈ us, u < 0x10000)
    (h : ofUnits us = some text) : us = text.flatMap charUnits := by
  fun_induction ofUnits us generalizing text with
  | case1 => cases h; rfl
  | case2 => cases h
  | case3 u hu v rest hv ih =>
    simp only [bind_pure_comp, Option.map_eq_map, Option.map_eq_some_iff] at h
    obtain ⟨text, hrest, rfl⟩ := h
    have hrest := ih (fun w hw => hus w (by simp [hw])) hrest
    rw [List.flatMap_cons, charUnits_of_pair hu hv, ← hrest]
    rfl
  | case4 => cases h
  | case5 => cases h
  | case6 u rest hu hv ih =>
    simp only [bind_pure_comp, Option.map_eq_map, Option.map_eq_some_iff] at h
    obtain ⟨text, hrest, rfl⟩ := h
    have hrest := ih (fun w hw => hus w (by simp [hw])) hrest
    rw [List.flatMap_cons, charUnits_of_unit (hus u (by simp)) hu hv, ← hrest]
    rfl

/-- **Units of sixteen bits make up a text** exactly if they are the units of its characters. -/
theorem ofUnits_eq_some_iff {us : List Nat} {text : List Char} (hus : ∀ u ∈ us, u < 0x10000) :
    ofUnits us = some text ↔ us = text.flatMap charUnits :=
  ⟨eq_flatMap_of_ofUnits hus, fun h => h ▸ ofUnits_flatMap text⟩

/-! ## Reading texts -/

/-- **A byte string reads as a text, unit by unit,** exactly if it is made of the bytes of the units
of its characters. -/
theorem decodeUnits_eq_some_iff {bytes : List UInt8} {text : List Char} :
    decodeUnits bytes = some text ↔ ∃ parts : List (List UInt8), bytes = parts.flatten ∧
      List.Forall₂ IsUnit parts (text.flatMap charUnits) := by
  constructor
  · intro h
    obtain ⟨us, hus, htext⟩ := Option.bind_eq_some_iff.1 h
    obtain ⟨parts, hbytes, hparts⟩ := units_eq_some_iff.1 hus
    obtain rfl := (ofUnits_eq_some_iff fun _ => lt_of_mem_units hparts).1 htext
    exact ⟨parts, hbytes, hparts⟩
  · rintro ⟨parts, hbytes, hparts⟩
    have hus := units_eq_some_iff.2 ⟨parts, hbytes, hparts⟩
    exact Option.bind_eq_some_iff.2 ⟨_, hus, ofUnits_flatMap text⟩

/-- **A text in front does not change how the rest is read.** -/
theorem decodeUnits_append {bytes : List UInt8} {text : List Char}
    (h : decodeUnits bytes = some text) (rest : List UInt8) :
    decodeUnits (bytes ++ rest) = (decodeUnits rest).map (text ++ ·) := by
  obtain ⟨parts, rfl, hparts⟩ := decodeUnits_eq_some_iff.1 h
  simp only [decodeUnits, Option.bind_eq_bind, units_flatten_append hparts]
  cases units rest with
  | none => rfl
  | some us => exact ofUnits_flatMap_append text us

/-- What is read unit by unit has no zero byte and no byte that starts four bytes of plain UTF-8. -/
theorem byte_bounds_of_decodeUnits {bytes : List UInt8} {text : List Char}
    (h : decodeUnits bytes = some text) {b : UInt8} (hb : b ∈ bytes) :
    0 < b.toNat ∧ b.toNat < 0xf0 := by
  obtain ⟨parts, rfl, hparts⟩ := decodeUnits_eq_some_iff.1 h
  obtain ⟨body, hbody, hb⟩ := List.mem_flatten.1 hb
  obtain ⟨u, hu⟩ := exists_unit_of_mem hparts hbody
  exact hu.byte_bounds hb

/-- **The bytes of a text read as that text, unit by unit.** -/
theorem decodeUnits_encode (text : List Char) : decodeUnits (encode text) = some text := by
  refine decodeUnits_eq_some_iff.2 ⟨(text.flatMap charUnits).map unitBytes, rfl, ?_⟩
  rw [List.forall₂_map_left_iff, List.forall₂_same]
  intro u hu
  obtain ⟨c, -, hc⟩ := List.mem_flatMap.1 hu
  exact isUnit_unitBytes (lt_of_mem_charUnits hc)

end ClassAccess.ModifiedUtf8
