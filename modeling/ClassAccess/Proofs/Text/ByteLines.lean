import ClassAccess.Proofs.Text.Lines
import ClassAccess.Proofs.Text.Utf8

/-!
# Lines of bytes

The bytes of a text are cut into the bytes of its lines: neither a line feed nor a carriage return
is a part of any other character. So a byte string is a text exactly if each of its lines is one,
and what is no text has a first line that is none.

## Main definitions

* `Text.StopsAfter` — the lines of a byte string before the first one that is no text.

## Main results

* `Text.byteLines_encode` — the lines of the bytes of a text.
* `Text.exists_encode_of_lines` — a byte string is a text if its lines are.
* `Text.exists_stopsAfter` — a byte string that is no text has a first line that is none.
-/

set_option autoImplicit false

namespace ClassAccess

/-! ## Bytes of texts -/

namespace Utf8

/-- Texts are written one after the other. -/
@[simp]
theorem encode_append (cs ds : List Char) : encode (cs ++ ds) = encode cs ++ encode ds :=
  List.flatMap_append

/-- **A byte string is read as a text** exactly if it is the bytes of that text. -/
theorem decode?_eq_some_iff {bytes : List UInt8} {text : String} :
    decode? bytes = some text ↔ bytes = encode text.toList := by
  rw [decode?, ← decode_eq_ok_iff]
  cases decode bytes with
  | error defect => exact ⟨nofun, nofun⟩
  | ok cs =>
    simp only [Except.toOption, Option.map_some, Option.some.injEq, Except.ok.injEq]
    constructor
    · rintro rfl
      exact String.toList_ofList.symm
    · rintro rfl
      exact String.ofList_toList

/-- A byte string that is the bytes of no text is not read. -/
theorem decode?_eq_none_iff {bytes : List UInt8} :
    decode? bytes = none ↔ ∀ text : String, bytes ≠ encode text.toList := by
  rw [Option.eq_none_iff_forall_ne_some]
  exact forall_congr' fun text => not_congr decode?_eq_some_iff

/-- A small byte is a character of its own. -/
theorem IsCharacter.eq_of_mem {body : List UInt8} {n : Nat} (h : IsCharacter body n) {b : UInt8}
    (hb : b ∈ body) (hsmall : b.toNat < 0x80) : n = b.toNat := by
  cases h with
  | one =>
    obtain rfl := List.mem_singleton.1 hb
    rfl
  | _ =>
    simp only [IsTail, List.mem_cons, List.not_mem_nil, or_false] at *
    grind

/-- **A small byte is no part of another character.** -/
theorem eq_of_mem_utf8EncodeChar {c d : Char} (hsmall : c.toNat < 0x80)
    (h : UInt8.ofNat c.toNat ∈ String.utf8EncodeChar d) : d = c := by
  have hbyte : (UInt8.ofNat c.toNat).toNat = c.toNat := by
    rw [UInt8.toNat_ofNat']
    omega
  have hnumber := (isCharacter_utf8EncodeChar d).eq_of_mem h (by omega)
  exact Char.toNat_inj.1 (hnumber.trans hbyte)

/-- So it stands in the bytes of a text only where its character does. -/
theorem mem_of_mem_encode {c : Char} {cs : List Char} (hsmall : c.toNat < 0x80)
    (h : UInt8.ofNat c.toNat ∈ encode cs) : c ∈ cs := by
  obtain ⟨d, hd, hmem⟩ := List.mem_flatMap.1 h
  rwa [← eq_of_mem_utf8EncodeChar hsmall hmem]

/-- And it stands at their end only where its character does. -/
theorem getLast?_of_getLast?_encode {c : Char} {cs : List Char} (hsmall : c.toNat < 0x80)
    (h : (encode cs).getLast? = some (UInt8.ofNat c.toNat)) : cs.getLast? = some c := by
  obtain rfl | ⟨ds, d, rfl⟩ := List.eq_nil_or_concat cs
  · cases h
  · rw [List.concat_eq_append] at h ⊢
    have hlast : encode [d] = String.utf8EncodeChar d := List.append_nil _
    rw [encode_append, hlast,
      List.getLast?_append_of_ne_nil _ (isCharacter_utf8EncodeChar d).ne_nil] at h
    rw [List.getLast?_concat, eq_of_mem_utf8EncodeChar hsmall (List.mem_of_getLast? h)]

/-- A character has bytes, and so has a text that is not empty. -/
theorem encode_ne_nil {cs : List Char} (h : cs ≠ []) : encode cs ≠ [] := by
  obtain ⟨c, cs, rfl⟩ := List.exists_cons_of_ne_nil h
  rw [encode_cons]
  exact List.append_ne_nil_of_left_ne_nil (isCharacter_utf8EncodeChar c).ne_nil _

end Utf8

/-! ## Lines of bytes -/

namespace Text

open Utf8 (encode encode_append)

/-- The bytes of a line feed. -/
theorem encode_lineFeed (rest : List Char) : encode ('\n' :: rest) = 0x0a :: encode rest := rfl

/-- There is no line feed in the bytes of a line. -/
theorem not_mem_encode {line : List Char} (h : '\n' ∉ line) : 0x0a ∉ encode line :=
  mt (Utf8.mem_of_mem_encode (c := '\n') (by decide)) h

/-- A carriage return at the end of the bytes of a line is that at the end of the line. -/
theorem chomp_encode (line : List Char) : chomp 0x0d (encode line) = encode (chomp '\r' line) := by
  have hreturn : encode ['\r'] = [0x0d] := rfl
  by_cases h : line.getLast? = some '\r'
  · obtain ⟨line, rfl⟩ := List.getLast?_eq_some_iff.1 h
    rw [encode_append, hreturn, chomp_concat, chomp_concat]
  · have hbytes : (encode line).getLast? ≠ some 0x0d :=
      mt (Utf8.getLast?_of_getLast?_encode (c := '\r') (by decide)) h
    rw [chomp_of_getLast? h, chomp_of_getLast? hbytes]

/-- **The bytes of a text** are cut into the bytes of its lines. -/
theorem splitLines_encode (cs : List Char) :
    splitLines 0x0d 0x0a (encode cs) = (splitLines '\r' '\n' cs).map encode := by
  induction cs using lineInduction '\n' with
  | nil => rfl
  | last line hne hlf =>
    rw [splitLines_last (Utf8.encode_ne_nil hne) (not_mem_encode hlf), splitLines_last hne hlf]
    rfl
  | cons line rest hlf ih =>
    rw [encode_append, encode_lineFeed, splitLines_line (not_mem_encode hlf), splitLines_line hlf,
      List.map_cons, chomp_encode, ih]

/-- The same for the lines of a text. -/
theorem byteLines_encode (text : String) :
    byteLines (encode text.toList) = (lines text).map fun line => encode line.toList := by
  rw [byteLines, splitLines_encode, lines, List.map_map]
  refine List.map_congr_left fun line _ => ?_
  rw [Function.comp_apply, String.toList_ofList]

/-- The bytes of a carriage return and a line feed. -/
theorem encode_returnFeed (rest : List Char) :
    encode ('\r' :: '\n' :: rest) = 0x0d :: 0x0a :: encode rest := rfl

/-- **A byte string is a text** if each of its lines is one. -/
theorem exists_encode_of_lines {bytes : List UInt8}
    (h : ∀ line ∈ byteLines bytes, ∃ cs, line = encode cs) : ∃ cs, bytes = encode cs := by
  rw [byteLines] at h
  induction bytes using lineInduction (0x0a : UInt8) with
  | nil => exact ⟨[], rfl⟩
  | last line hne hlf =>
    rw [splitLines_last hne hlf] at h
    exact h line List.mem_cons_self
  | cons line rest hlf ih =>
    rw [splitLines_line hlf, List.forall_mem_cons] at h
    obtain ⟨⟨front, hfront⟩, hrest⟩ := h
    obtain ⟨back, rfl⟩ := ih hrest
    obtain hline | hline := eq_chomp_or 0x0d line
    · exact ⟨front ++ '\n' :: back, by rw [encode_append, encode_lineFeed, ← hfront, ← hline]⟩
    · refine ⟨front ++ '\r' :: '\n' :: back, ?_⟩
      rw [encode_append, encode_returnFeed, ← hfront, hline, chomp_concat, List.append_assoc,
        List.singleton_append]

/-- Byte strings are texts, or there is a first one among them that is none. -/
theorem texts_or_first_not_text (strings : List (List UInt8)) :
    (∃ texts : List String, strings = texts.map fun text => encode text.toList) ∨
      ∃ (texts : List String) (bad : List UInt8) (rest : List (List UInt8)),
        strings = (texts.map fun text => encode text.toList) ++ bad :: rest ∧
          ∀ text : String, bad ≠ encode text.toList := by
  induction strings with
  | nil => exact .inl ⟨[], rfl⟩
  | cons bytes strings ih =>
    cases hdecode : Utf8.decode? bytes with
    | none => exact .inr ⟨[], bytes, strings, rfl, Utf8.decode?_eq_none_iff.1 hdecode⟩
    | some text =>
      rw [Utf8.decode?_eq_some_iff.1 hdecode]
      obtain ⟨texts, rfl⟩ | ⟨texts, bad, rest, rfl, hbad⟩ := ih
      · exact .inl ⟨text :: texts, rfl⟩
      · exact .inr ⟨text :: texts, bad, rest, rfl, hbad⟩

/-- The lines `raws` of a byte string come before its first line that is no text. -/
def StopsAfter (bytes : List UInt8) (raws : List String) : Prop :=
  ∃ bad rest, byteLines bytes = (raws.map fun raw => encode raw.toList) ++ bad :: rest ∧
    ∀ text : String, bad ≠ encode text.toList

/-- **What is no text** has a first line that is none. -/
theorem exists_stopsAfter {bytes : List UInt8} (h : ∀ text : String, bytes ≠ encode text.toList) :
    ∃ raws, StopsAfter bytes raws := by
  refine (texts_or_first_not_text (byteLines bytes)).resolve_left ?_
  rintro ⟨texts, htexts⟩
  obtain ⟨cs, rfl⟩ := exists_encode_of_lines fun line hline => by
    obtain ⟨text, -, rfl⟩ := List.mem_map.1 (htexts ▸ hline)
    exact ⟨text.toList, rfl⟩
  exact h (String.ofList cs) (by rw [String.toList_ofList])

end Text

end ClassAccess
