import ClassAccess.Proofs.Outcome
import ClassAccess.Text.Utf8

/-!
# Reading UTF-8

The bytes of a text read as that text, and nothing else reads as a text.

## Main definitions

* `Utf8.IsCharacter` — the bytes of one character, by their number.
* `Utf8.Completes` — what is still to come of a character that is read in part.

## Main results

* `Utf8.isCharacter_utf8EncodeChar`, `Utf8.IsCharacter.encode` — every character has such bytes, and
  they are its own.
* `Utf8.decode_eq_ok_iff` — a byte string reads as a text exactly if it is made of the bytes of its
  characters.
-/

set_option autoImplicit false

namespace ClassAccess.Utf8

/-! ## Characters -/

/-- A byte inside a character. -/
def IsTail (b : UInt8) : Prop := 0x80 ≤ b.toNat ∧ b.toNat ≤ 0xbf

/-- The bytes of the character with a code point. The bounds on the second byte rule out forms that
are longer than they need be, surrogates and what is above the last code point. -/
inductive IsCharacter : List UInt8 → Nat → Prop
  /-- A character of one byte. -/
  | one {a : UInt8} : a.toNat < 0x80 → IsCharacter [a] a.toNat
  /-- A character of two bytes. -/
  | two {a b : UInt8} : 0xc2 ≤ a.toNat → a.toNat < 0xe0 → IsTail b →
    IsCharacter [a, b] ((a.toNat - 0xc0) * 64 + (b.toNat - 0x80))
  /-- A character of three bytes. -/
  | three {a b c : UInt8} : 0xe0 ≤ a.toNat → a.toNat < 0xf0 → IsTail b → IsTail c →
    (a.toNat = 0xe0 → 0xa0 ≤ b.toNat) → (a.toNat = 0xed → b.toNat ≤ 0x9f) →
    IsCharacter [a, b, c] (((a.toNat - 0xe0) * 64 + (b.toNat - 0x80)) * 64 + (c.toNat - 0x80))
  /-- A character of four bytes. -/
  | four {a b c d : UInt8} : 0xf0 ≤ a.toNat → a.toNat < 0xf5 → IsTail b → IsTail c → IsTail d →
    (a.toNat = 0xf0 → 0x90 ≤ b.toNat) → (a.toNat = 0xf4 → b.toNat ≤ 0x8f) →
    IsCharacter [a, b, c, d]
      ((((a.toNat - 0xf0) * 64 + (b.toNat - 0x80)) * 64 + (c.toNat - 0x80)) * 64 + (d.toNat - 0x80))

/-- The code point of a character that is none too large and no surrogate. -/
theorem toNat_ofNat_of_valid {n : Nat} (h : n < 0xd800 ∨ 0xdfff < n ∧ n < 0x110000) :
    (Char.ofNat n).val.toNat = n := by
  have hvalid : n.isValidChar := h
  rw [Char.ofNat, dif_pos hvalid]
  rfl

/-- A byte is given by its number. -/
theorem ofNat_eq_of_toNat {n : Nat} {b : UInt8} (h : n = b.toNat) : UInt8.ofNat n = b := by
  rw [h, UInt8.ofNat_toNat]

/-- **The bytes of a character are its own.** -/
theorem IsCharacter.encode {body : List UInt8} {n : Nat} (h : IsCharacter body n) :
    String.utf8EncodeChar (Char.ofNat n) = body := by
  have hn : n < 0xd800 ∨ 0xdfff < n ∧ n < 0x110000 := by
    cases h with
    | one => omega
    | _ => simp only [IsTail] at *; omega
  rw [String.utf8EncodeChar.eq_1, toNat_ofNat_of_valid hn]
  cases h with
  | one ha => rw [if_pos (by omega), UInt8.ofNat_toNat]
  | two =>
    simp only [IsTail] at *
    rw [if_neg (by omega), if_pos (by omega)]
    simp only [List.cons.injEq, and_true]
    exact ⟨ofNat_eq_of_toNat (by omega), ofNat_eq_of_toNat (by omega)⟩
  | three =>
    simp only [IsTail] at *
    rw [if_neg (by omega), if_neg (by omega), if_pos (by omega)]
    simp only [List.cons.injEq, and_true]
    exact ⟨ofNat_eq_of_toNat (by omega), ofNat_eq_of_toNat (by omega), ofNat_eq_of_toNat (by omega)⟩
  | four =>
    simp only [IsTail] at *
    rw [if_neg (by omega), if_neg (by omega), if_neg (by omega)]
    simp only [List.cons.injEq, and_true]
    exact ⟨ofNat_eq_of_toNat (by omega), ofNat_eq_of_toNat (by omega), ofNat_eq_of_toNat (by omega),
      ofNat_eq_of_toNat (by omega)⟩

/-- The bytes of a character are also those of its number written in another way. -/
theorem IsCharacter.of_eq {body : List UInt8} {m n : Nat} (h : IsCharacter body m) (hm : m = n) :
    IsCharacter body n :=
  hm ▸ h

/-- **Every character has bytes** that are those of its code point. -/
theorem isCharacter_utf8EncodeChar (c : Char) : IsCharacter (String.utf8EncodeChar c) c.toNat := by
  have hvalid : c.toNat < 0xd800 ∨ 0xdfff < c.toNat ∧ c.toNat < 0x110000 := c.valid
  rw [String.utf8EncodeChar.eq_1, show c.val.toNat = c.toNat from rfl]
  generalize c.toNat = n at hvalid
  have hlead : ∀ m, (UInt8.ofNat m).toNat = m % 256 := fun m => UInt8.toNat_ofNat' ..
  have htail : ∀ m, IsTail (UInt8.ofNat (m % 0x40 + 0x80)) := by
    intro m
    rw [IsTail, hlead]
    omega
  split_ifs with h1 h2 h3
  · exact .of_eq (.one (by rw [hlead]; omega)) (by rw [hlead]; omega)
  · exact .of_eq (.two (by rw [hlead]; omega) (by rw [hlead]; omega) (htail n))
      (by rw [hlead, hlead]; omega)
  · exact .of_eq (.three (by rw [hlead]; omega) (by rw [hlead]; omega) (htail (n / 64)) (htail n)
      (by rw [hlead, hlead]; omega) (by rw [hlead, hlead]; omega))
      (by rw [hlead, hlead, hlead]; omega)
  · exact .of_eq (.four (by rw [hlead]; omega) (by rw [hlead]; omega) (htail (n / 4096))
      (htail (n / 64)) (htail n) (by rw [hlead, hlead]; omega) (by rw [hlead, hlead]; omega))
      (by rw [hlead, hlead, hlead, hlead]; omega)

/-! ## The reader -/

/-- The bytes that complete a character of which some bytes are read, and its number. -/
inductive Completes : Pending → List UInt8 → Nat → Prop
  /-- The last byte. -/
  | last {p : Pending} {b : UInt8} : p.low ≤ b → b ≤ p.high → p.after = 0 →
    Completes p [b] (p.bits * 64 + (b.toNat - 0x80))
  /-- One more byte. -/
  | more {p : Pending} {b : UInt8} {k n : Nat} {body : List UInt8} : p.low ≤ b → b ≤ p.high →
    p.after = k + 1 →
    Completes ⟨p.seen + 1, k, p.bits * 64 + (b.toNat - 0x80), 0x80, 0xbf⟩ body n →
    Completes p (b :: body) n

/-- A character that is read in part is read to its end. -/
theorem decodeFrom_some_eq_ok_iff {start : Nat} {p : Pending} {bytes : List UInt8}
    {cs : List Char} :
    decodeFrom start (some p) bytes = .ok cs ↔ ∃ body rest n cs', bytes = body ++ rest ∧
      Completes p body n ∧ decodeFrom (start + p.seen + body.length) none rest = .ok cs' ∧
      cs = Char.ofNat n :: cs' := by
  induction bytes generalizing p with
  | nil =>
    constructor
    · intro h
      cases h
    · rintro ⟨body, rest, n, cs', h, hbody, -⟩
      cases hbody <;> cases h
  | cons b bytes ih =>
    rw [decodeFrom]
    split_ifs with hrange
    · obtain ⟨hlow, hhigh⟩ := hrange
      cases hafter : p.after with
      | zero =>
        simp only [map_eq_ok_iff]
        constructor
        · rintro ⟨cs', hrest, rfl⟩
          exact ⟨[b], bytes, _, cs', rfl, .last hlow hhigh hafter, hrest, rfl⟩
        · rintro ⟨body, rest, n, cs', h, hbody, hrest, rfl⟩
          cases hbody with
          | last =>
            cases h
            exact ⟨cs', hrest, rfl⟩
          | more _ _ hafter' => rw [hafter] at hafter'; cases hafter'
      | succ k =>
        simp only [ih]
        constructor
        · rintro ⟨body, rest, n, cs', rfl, hbody, hrest, rfl⟩
          refine ⟨b :: body, rest, n, cs', rfl, .more hlow hhigh hafter hbody, ?_, rfl⟩
          rw [← hrest, List.length_cons]
          congr 1
          omega
        · rintro ⟨body, rest, n, cs', h, hbody, hrest, rfl⟩
          cases hbody with
          | last _ _ hafter' => rw [hafter] at hafter'; cases hafter'
          | @more _ _ _ _ body _ _ hafter' hbody =>
            rw [hafter] at hafter'
            cases hafter'
            cases h
            refine ⟨body, rest, n, cs', rfl, hbody, ?_, rfl⟩
            rw [← hrest, List.length_cons]
            congr 1
            omega
    · refine ⟨nofun, ?_⟩
      rintro ⟨body, rest, n, cs', h, hbody, -⟩
      cases hbody <;> cases h <;> exact absurd ⟨‹_›, ‹_›⟩ hrange

/-- One byte completes a character of which one byte is missing. -/
theorem completes_last_iff {p : Pending} {body : List UInt8} {n : Nat} (hp : p.after = 0) :
    Completes p body n ↔
      ∃ b, body = [b] ∧ (p.low ≤ b ∧ b ≤ p.high) ∧ n = p.bits * 64 + (b.toNat - 0x80) := by
  constructor
  · intro h
    cases h with
    | @last _ b hlow hhigh _ => exact ⟨b, rfl, ⟨hlow, hhigh⟩, rfl⟩
    | more _ _ hafter => rw [hp] at hafter; cases hafter
  · rintro ⟨b, rfl, ⟨hlow, hhigh⟩, hn⟩
    exact hn ▸ .last hlow hhigh hp

/-- A byte goes on with a character of which more than one byte is missing. -/
theorem completes_more_iff {p : Pending} {body : List UInt8} {k n : Nat} (hp : p.after = k + 1) :
    Completes p body n ↔ ∃ b rest, body = b :: rest ∧ (p.low ≤ b ∧ b ≤ p.high) ∧
      Completes ⟨p.seen + 1, k, p.bits * 64 + (b.toNat - 0x80), 0x80, 0xbf⟩ rest n := by
  constructor
  · intro h
    cases h with
    | last _ _ hafter => rw [hp] at hafter; cases hafter
    | @more _ b _ _ rest hlow hhigh hafter hrest =>
      rw [hp] at hafter
      cases hafter
      exact ⟨b, rest, rfl, ⟨hlow, hhigh⟩, hrest⟩
  · rintro ⟨b, rest, rfl, ⟨hlow, hhigh⟩, hrest⟩
    exact .more hlow hhigh hp hrest

/-- What a lead byte announces. -/
theorem ofLead_eq (b : UInt8) :
    Pending.ofLead b =
      if b.toNat < 0xc2 then none
      else if b.toNat < 0xe0 then some ⟨1, 0, b.toNat - 0xc0, 0x80, 0xbf⟩
      else if b.toNat < 0xf0 then
        some ⟨1, 1, b.toNat - 0xe0, if b.toNat = 0xe0 then 0xa0 else 0x80,
          if b.toNat = 0xed then 0x9f else 0xbf⟩
      else if b.toNat < 0xf5 then
        some ⟨1, 2, b.toNat - 0xf0, if b.toNat = 0xf0 then 0x90 else 0x80,
          if b.toNat = 0xf4 then 0x8f else 0xbf⟩
      else none := by
  simp only [Pending.ofLead, UInt8.lt_iff_toNat_lt, ← UInt8.toNat_inj, UInt8.reduceToNat]
  split_ifs <;> first | rfl | omega

/-- A least byte that may be greater than that of other bytes inside a character. -/
theorem low_le_iff {p : Prop} [Decidable p] {low b : UInt8} (hlow : 0x80 ≤ low.toNat) :
    (if p then low else 0x80) ≤ b ↔ 0x80 ≤ b.toNat ∧ (p → low.toNat ≤ b.toNat) := by
  have h80 : (0x80 : UInt8).toNat = 0x80 := rfl
  rw [UInt8.le_iff_toNat_le]
  split_ifs with hp
  · exact ⟨fun h => ⟨by omega, fun _ => h⟩, fun h => h.2 hp⟩
  · rw [h80]
    exact ⟨fun h => ⟨h, fun h' => absurd h' hp⟩, And.left⟩

/-- A greatest byte that may be less than that of other bytes inside a character. -/
theorem le_high_iff {p : Prop} [Decidable p] {high b : UInt8} (hhigh : high.toNat ≤ 0xbf) :
    b ≤ (if p then high else 0xbf) ↔ b.toNat ≤ 0xbf ∧ (p → b.toNat ≤ high.toNat) := by
  have hbf : (0xbf : UInt8).toNat = 0xbf := rfl
  rw [UInt8.le_iff_toNat_le]
  split_ifs with hp
  · exact ⟨fun h => ⟨by omega, fun _ => h⟩, fun h => h.2 hp⟩
  · rw [hbf]
    exact ⟨fun h => ⟨h, fun h' => absurd h' hp⟩, And.left⟩

/-- What a lead byte announces are the ways in which its character may go on. -/
theorem isCharacter_cons_iff {b : UInt8} {body : List UInt8} {n : Nat} (hb : 0x80 ≤ b.toNat) :
    IsCharacter (b :: body) n ↔ ∃ p, Pending.ofLead b = some p ∧ Completes p body n := by
  rw [ofLead_eq]
  constructor
  · intro h
    cases h with
    | one => omega
    | two h1 h2 hc =>
      rw [if_neg (by omega), if_pos h2]
      exact ⟨_, rfl, .last hc.1 hc.2 rfl⟩
    | three h1 h2 hc hd hlow hhigh =>
      rw [if_neg (by omega), if_neg (by omega), if_pos h2]
      refine ⟨_, rfl, .more ?_ ?_ rfl (.last hd.1 hd.2 rfl)⟩
      · exact (low_le_iff (by decide)).2 ⟨hc.1, hlow⟩
      · exact (le_high_iff (by decide)).2 ⟨hc.2, hhigh⟩
    | four h1 h2 hc hd he hlow hhigh =>
      rw [if_neg (by omega), if_neg (by omega), if_neg (by omega), if_pos h2]
      refine ⟨_, rfl, .more ?_ ?_ rfl (.more hd.1 hd.2 rfl (.last he.1 he.2 rfl))⟩
      · exact (low_le_iff (by decide)).2 ⟨hc.1, hlow⟩
      · exact (le_high_iff (by decide)).2 ⟨hc.2, hhigh⟩
  · rintro ⟨p, hp, hbody⟩
    by_cases h1 : b.toNat < 0xc2
    · rw [if_pos h1] at hp
      cases hp
    rw [if_neg h1] at hp
    by_cases h2 : b.toNat < 0xe0
    · rw [if_pos h2] at hp
      cases hp
      obtain ⟨c, rfl, hc, hn⟩ := (completes_last_iff rfl).1 hbody
      exact .of_eq (.two (Nat.not_lt.1 h1) h2 hc) hn.symm
    rw [if_neg h2] at hp
    by_cases h3 : b.toNat < 0xf0
    · rw [if_pos h3] at hp
      cases hp
      obtain ⟨c, _, rfl, ⟨hlow, hhigh⟩, hbody⟩ := (completes_more_iff rfl).1 hbody
      obtain ⟨d, rfl, hd, hn⟩ := (completes_last_iff rfl).1 hbody
      have hlow := (low_le_iff (by decide)).1 hlow
      have hhigh := (le_high_iff (by decide)).1 hhigh
      exact .of_eq (.three (Nat.not_lt.1 h2) h3 ⟨hlow.1, hhigh.1⟩ hd hlow.2 hhigh.2) hn.symm
    rw [if_neg h3] at hp
    by_cases h4 : b.toNat < 0xf5
    · rw [if_pos h4] at hp
      cases hp
      obtain ⟨c, _, rfl, ⟨hlow, hhigh⟩, hbody⟩ := (completes_more_iff rfl).1 hbody
      obtain ⟨d, _, rfl, hd, hbody⟩ := (completes_more_iff rfl).1 hbody
      obtain ⟨e, rfl, he, hn⟩ := (completes_last_iff rfl).1 hbody
      have hlow := (low_le_iff (by decide)).1 hlow
      have hhigh := (le_high_iff (by decide)).1 hhigh
      exact .of_eq (.four (Nat.not_lt.1 h3) h4 ⟨hlow.1, hhigh.1⟩ hd he hlow.2 hhigh.2) hn.symm
    · rw [if_neg h4] at hp
      cases hp

/-- After a lead byte, one byte has been read. -/
theorem seen_of_ofLead {b : UInt8} {p : Pending} (h : Pending.ofLead b = some p) : p.seen = 1 := by
  rw [Pending.ofLead] at h
  split_ifs at h <;> cases h <;> rfl

/-- A character has bytes. -/
theorem IsCharacter.ne_nil {body : List UInt8} {n : Nat} (h : IsCharacter body n) : body ≠ [] := by
  cases h <;> exact List.cons_ne_nil _ _

/-- **A text that is not empty** is a character and a text. -/
theorem decodeFrom_none_eq_ok_iff {start : Nat} {b : UInt8} {bytes : List UInt8} {cs : List Char} :
    decodeFrom start none (b :: bytes) = .ok cs ↔ ∃ body rest n cs', b :: bytes = body ++ rest ∧
      IsCharacter body n ∧ decodeFrom (start + body.length) none rest = .ok cs' ∧
      cs = Char.ofNat n :: cs' := by
  rw [decodeFrom]
  by_cases hb : b < 0x80
  · have hb' : b.toNat < 0x80 := hb
    rw [if_pos hb, map_eq_ok_iff]
    constructor
    · rintro ⟨cs', hrest, rfl⟩
      exact ⟨[b], bytes, _, cs', rfl, .one hb', hrest, rfl⟩
    · rintro ⟨body, rest, n, cs', h, hbody, hrest, rfl⟩
      cases hbody <;> cases h
      · exact ⟨cs', hrest, rfl⟩
      all_goals omega
  · have hb' : 0x80 ≤ b.toNat := Nat.not_lt.1 hb
    have hlength : ∀ {p} (body : List UInt8), Pending.ofLead b = some p →
        start + p.seen + body.length = start + (b :: body).length := by
      intro p body hp
      rw [seen_of_ofLead hp, List.length_cons]
      omega
    rw [if_neg hb]
    constructor
    · intro h
      cases hp : Pending.ofLead b with
      | none => rw [hp] at h; cases h
      | some p =>
        rw [hp] at h
        obtain ⟨body, rest, n, cs', rfl, hbody, hrest, rfl⟩ := decodeFrom_some_eq_ok_iff.1 h
        rw [hlength body hp] at hrest
        exact ⟨b :: body, rest, n, cs', rfl, (isCharacter_cons_iff hb').2 ⟨p, hp, hbody⟩,
          hrest, rfl⟩
    · rintro ⟨body, rest, n, cs', h, hbody, hrest, rfl⟩
      obtain ⟨c, body, rfl⟩ := List.exists_cons_of_ne_nil hbody.ne_nil
      obtain ⟨rfl, rfl⟩ := List.cons.inj h
      obtain ⟨p, hp, hbody⟩ := (isCharacter_cons_iff hb').1 hbody
      rw [← hlength body hp] at hrest
      rw [hp]
      exact decodeFrom_some_eq_ok_iff.2 ⟨body, rest, n, cs', rfl, hbody, hrest, rfl⟩

/-! ## Texts -/

/-- The bytes of a text that is not empty. -/
theorem encode_cons (c : Char) (cs : List Char) :
    encode (c :: cs) = String.utf8EncodeChar c ++ encode cs :=
  List.flatMap_cons

/-- **The bytes of a text** read as that text, wherever they stand. -/
theorem decodeFrom_encode (start : Nat) (cs : List Char) :
    decodeFrom start none (encode cs) = .ok cs := by
  induction cs generalizing start with
  | nil => rfl
  | cons c cs ih =>
    have hchar := isCharacter_utf8EncodeChar c
    obtain ⟨b, body, hbody⟩ := List.exists_cons_of_ne_nil hchar.ne_nil
    rw [encode_cons, hbody, List.cons_append]
    refine decodeFrom_none_eq_ok_iff.2 ⟨b :: body, encode cs, c.toNat, cs, rfl, hbody ▸ hchar,
      ih _, ?_⟩
    rw [Char.ofNat_toNat]

/-- **What reads as a text** is made of the bytes of its characters. -/
theorem eq_encode_of_decodeFrom {start : Nat} {bytes : List UInt8} {cs : List Char}
    (h : decodeFrom start none bytes = .ok cs) : bytes = encode cs := by
  -- The induction is on the text, which is one character longer than what is read after the first
  -- one.
  induction cs generalizing start bytes with
  | nil =>
    cases bytes with
    | nil => rfl
    | cons b bytes =>
      obtain ⟨_, _, _, _, -, -, -, h⟩ := decodeFrom_none_eq_ok_iff.1 h
      cases h
  | cons c cs ih =>
    cases bytes with
    | nil => cases h
    | cons b bytes =>
      obtain ⟨body, rest, n, cs', hbytes, hbody, hrest, h⟩ := decodeFrom_none_eq_ok_iff.1 h
      cases h
      rw [hbytes, encode_cons, hbody.encode, ih hrest]

/-- **A byte string reads as a text** exactly if it is made of the bytes of its characters. -/
theorem decode_eq_ok_iff {bytes : List UInt8} {cs : List Char} :
    decode bytes = .ok cs ↔ bytes = encode cs :=
  ⟨eq_encode_of_decodeFrom, fun h => h ▸ decodeFrom_encode 0 cs⟩

end ClassAccess.Utf8
