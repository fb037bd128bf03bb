import Mathlib.Data.List.Basic
import ClassAccess.Cache.Blob

/-!
# The header of a cache

A header has a front of six bytes, which are the magic bytes and the version, then six bytes that
nothing depends on, and then the length and the checksum of the payload.

## Main results

* `Blake3.length_hash` — how long a digest is.
* `Cache.checkedPayload_parts` — what becomes of a byte string with such a header.
* `Cache.checkedPayload_header` — a header that is written in front of a payload is accepted.
* `Cache.decode_of_read`, `Cache.decode_of_unreadable` — what comes after a header that is accepted.
-/

set_option autoImplicit false

namespace ClassAccess

/-- **A digest** has 32 bytes. -/
theorem Blake3.length_hash (bytes : List UInt8) : (hash bytes).length = 32 := by
  rw [hash, List.length_flatMap]
  simp

namespace Cache

/-- A checksum has as many bytes as there is room for in a header. -/
@[simp]
theorem length_checksum (payload : List UInt8) : (checksum payload).length = checksumLength := by
  rw [checksum, List.length_take, Blake3.length_hash]
  rfl

/-- **What becomes of a header** whose first twelve bytes are those of `front` and of `free`. -/
theorem checkedPayload_parts {front free rest : List UInt8} (hfront : front.length = 6)
    (hfree : free.length = 6) :
    checkedPayload (front ++ free ++ rest) =
      if rest.length < 20 then .error (.lengthMismatch headerLength (12 + rest.length))
      else if front.take 4 ≠ magic then .error .badMagic
      else if littleEndian (front.drop 4) ≠ formatVersion then
        .error (.incompatibleVersion (littleEndian (front.drop 4)))
      else if (rest.drop 20).length ≠ littleEndian (rest.take 4) then
        .error (.lengthMismatch (littleEndian (rest.take 4)) (rest.drop 20).length)
      else if checksum (rest.drop 20) ≠ (rest.drop 4).take checksumLength then
        .error .checksumMismatch
      else .ok (rest.drop 20) := by
  have hlength : (front ++ free ++ rest).length = 12 + rest.length := by
    rw [List.length_append, List.length_append, hfront, hfree]
  have hmagic : (front ++ free ++ rest).take 4 = front.take 4 := by
    rw [List.append_assoc, List.take_append_of_le_length (by omega)]
  have hversion : ((front ++ free ++ rest).drop 4).take 2 = front.drop 4 := by
    rw [List.append_assoc, List.drop_append_of_le_length (by omega),
      List.take_left' (by rw [List.length_drop, hfront])]
  have hrest : ∀ n, (front ++ free ++ rest).drop (12 + n) = rest.drop n := by
    intro n
    rw [← List.drop_drop, List.drop_left' (by rw [List.length_append, hfront, hfree])]
  have hshort : 12 + rest.length < headerLength ↔ rest.length < 20 := by
    rw [headerLength]
    omega
  simp only [checkedPayload, hlength, hmagic, hversion, hshort]
  rw [show headerLength = 12 + 20 from rfl, hrest 20, hrest 0, hrest 4, List.drop_zero]

/-- **A header that is written** in front of a payload is accepted, as long as the length of the
payload can be told. -/
theorem checkedPayload_header {payload : List UInt8} (h : payload.length < 0x100000000) :
    checkedPayload (header payload ++ payload) = .ok payload := by
  have htold : littleEndian (littleEndianBytes 4 payload.length) = payload.length :=
    littleEndian_littleEndianBytes h
  have hparts : header payload ++ payload = (magic ++ littleEndianBytes 2 formatVersion) ++
      (littleEndianBytes 2 engineVersion ++ littleEndianBytes 4 0) ++
        (littleEndianBytes 4 payload.length ++ (checksum payload ++ payload)) := by
    simp only [header, List.append_assoc]
  have hlength : (littleEndianBytes 4 payload.length ++ checksum payload).length = 20 := by
    rw [List.length_append, length_littleEndianBytes, length_checksum]
    rfl
  have hpayload :
      (littleEndianBytes 4 payload.length ++ (checksum payload ++ payload)).drop 20 = payload := by
    rw [← List.append_assoc, List.drop_left' hlength]
  have hlong :
      ¬ (littleEndianBytes 4 payload.length ++ (checksum payload ++ payload)).length < 20 := by
    rw [← List.append_assoc, List.length_append, hlength]
    omega
  rw [hparts, checkedPayload_parts rfl rfl, hpayload, List.take_left' (length_littleEndianBytes ..),
    htold, List.drop_left' (length_littleEndianBytes ..), List.take_left' (length_checksum _),
    if_neg hlong]
  rw [if_neg (not_not_intro rfl : ¬ (magic ++ littleEndianBytes 2 formatVersion).take 4 ≠ magic),
    if_neg (not_not_intro rfl :
      ¬ littleEndian ((magic ++ littleEndianBytes 2 formatVersion).drop 4) ≠ formatVersion),
    if_neg (not_not_intro rfl), if_neg (not_not_intro rfl)]

/-! ## Behind the header -/

section Behind

variable {bytes body : List UInt8} (h : checkedPayload bytes = .ok body)

include h

/-- The payload is what is read behind the header, whatever follows it. -/
theorem payload_eq : payload bytes = (Prod.fst <$> Payload.read body).mapError .decode := by
  rw [payload, h]
  rfl

/-- Where something can be read behind the header, it is the payload. -/
theorem payload_of_read {rest : List UInt8} {p : Payload}
    (hread : Payload.read body = .ok (p, rest)) : payload bytes = .ok p := by
  rw [payload_eq h, hread]
  rfl

/-- It remains to make a rule set of it. -/
theorem decode_of_read {rest : List UInt8} {p : Payload}
    (hread : Payload.read body = .ok (p, rest)) :
    decode bytes = (ruleSetOf p).mapError .invalid := by
  rw [decode, payload_of_read h hread]
  rfl

/-- Where nothing can be read behind the header, this is what is reported. -/
theorem decode_of_unreadable {cause : PayloadError} (hread : Payload.read body = .error cause) :
    decode bytes = .error (.decode cause) := by
  rw [decode, payload_eq h, hread]
  rfl

end Behind

end Cache

end ClassAccess
