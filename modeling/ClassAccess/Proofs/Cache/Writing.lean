import ClassAccess.Proofs.Cache.Layout

/-!
# What is written can be read

The bytes that are made of a payload have the layout of a payload as long as they are not too many
for their number to be written. So the payload is read back from them.

## Main definitions

* `Payload.Fits` — whether a payload can be written.

## Main results

* `Layout.number_encode`, `Layout.text_textBytes`, `Layout.counted_listBytes` — the building blocks.
* `Payload.Fits.written_encode` — a whole payload.
* `Payload.read_encode` — it is read back.
-/

set_option autoImplicit false

namespace ClassAccess

/-! ## Lengths -/

section Lengths

variable {α : Type} {part : α → List UInt8} {l : List α}

/-- Each part is no longer than all of them. -/
theorem length_part_le (part : α → List UInt8) {a : α} (ha : a ∈ l) :
    (part a).length ≤ (l.flatMap part).length := by
  rw [List.flatMap_def]
  exact (List.sublist_flatten_of_mem (List.mem_map_of_mem ha)).length_le

/-- There are no more parts than bytes if no part is empty. -/
theorem length_le_length_flatMap (h : ∀ a ∈ l, part a ≠ []) :
    l.length ≤ (l.flatMap part).length := by
  induction l with
  | nil => exact Nat.le_refl _
  | cons a l ih =>
    obtain ⟨ha, hl⟩ := List.forall_mem_cons.1 h
    have hpos := List.length_pos_of_ne_nil ha
    have hrest := ih hl
    rw [List.length_cons, List.flatMap_cons, List.length_append]
    omega

end Lengths

/-! ## Building blocks -/

namespace Layout

variable {α : Type}

/-- **Numbers** are written as they are read. -/
theorem number_encode {widest n : Nat}
    (h : n < 0x100000000 ∨ 8 ≤ widest ∧ n < 0x10000000000000000) :
    Number widest n (Varint.encode n) := by
  have hfixed : ∀ count, n < Nat.pow 256 count →
      littleEndian (littleEndianBytes count n) = n := fun _ => littleEndian_littleEndianBytes
  rw [Varint.encode]
  split_ifs with h250 h2 h4
  · have hn : (UInt8.ofNat n).toNat = n := by
      rw [UInt8.toNat_ofNat', Nat.mod_eq_of_lt (by omega)]
    have hbyte : Number widest (UInt8.ofNat n).toNat [UInt8.ofNat n] := .byte (hn.symm ▸ h250)
    rwa [hn] at hbyte
  · have htwo : Number widest _ (251 :: littleEndianBytes 2 n) :=
      .two (length_littleEndianBytes 2 n)
    rwa [hfixed 2 h2] at htwo
  · have hfour : Number widest _ (252 :: littleEndianBytes 4 n) :=
      .four (length_littleEndianBytes 4 n)
    rwa [hfixed 4 h4] at hfour
  · obtain h | ⟨hwide, h⟩ := h
    · exact absurd h h4
    · have height := Number.eight hwide (length_littleEndianBytes 8 n)
      rwa [hfixed 8 h] at height

/-- **Texts** are written as they are read. -/
theorem text_textBytes {t : String} (h : (textBytes t).length < 0x10000000000000000) :
    Text t (textBytes t) := by
  rw [textBytes, List.length_append] at h
  exact ⟨_, number_encode (.inr ⟨Nat.le_refl 8, by omega⟩), rfl⟩

/-- **Cases** are written as they are read. -/
theorem case_caseBytes [DecidableEq α] {cases : List α} {a : α} (ha : a ∈ cases)
    (hfew : cases.length < 0x100000000) : Case cases a (caseBytes cases a) := by
  have hlt : cases.findIdx (fun b => decide (b = a)) < cases.length :=
    List.findIdx_lt_length_of_exists ⟨a, ha, decide_eq_true rfl⟩
  refine ⟨_, number_encode (.inl (by omega)), ?_⟩
  rw [List.getElem?_eq_getElem hlt]
  exact congrArg some (of_decide_eq_true (List.findIdx_getElem (w := hlt)))

/-- A part that may be left out is written as it is read. -/
theorem optional_optionBytes {layout : Layout α} (part : α → List UInt8) {o : Option α}
    (h : ∀ a, o = some a → layout a (part a)) : Optional layout o (optionBytes part o) := by
  cases o with
  | none => exact .none
  | some a => exact .some (h a rfl)

/-- Parts one after the other are written as they are read. -/
theorem sequence_flatMap {layout : Layout α} {part : α → List UInt8} {l : List α}
    (h : ∀ a ∈ l, layout a (part a)) : Sequence layout l (l.flatMap part) := by
  induction l with
  | nil => exact .nil
  | cons a l ih =>
    obtain ⟨ha, hl⟩ := List.forall_mem_cons.1 h
    exact .cons ha (ih hl)

/-- **Lists** are written as they are read, if no element is written as nothing. -/
theorem counted_listBytes {layout : Layout α} {part : α → List UInt8} {l : List α}
    (h : (listBytes part l).length < 0x10000000000000000) (hne : ∀ a ∈ l, part a ≠ [])
    (hpart : ∀ a ∈ l, (part a).length < 0x10000000000000000 → layout a (part a)) :
    Counted layout l (listBytes part l) := by
  rw [listBytes, List.length_append] at h
  have hcount := length_le_length_flatMap hne
  refine ⟨_, _, number_encode (.inr ⟨Nat.le_refl 8, by omega⟩),
    sequence_flatMap fun a ha => ?_, rfl⟩
  have hle := length_part_le part ha
  exact hpart a ha (by omega)

end Layout

/-! ## Payloads -/

/-- A number takes some bytes. -/
theorem Varint.encode_ne_nil (n : Nat) : Varint.encode n ≠ [] := by
  rw [Varint.encode]
  split_ifs <;> exact List.cons_ne_nil _ _

/-- **Edits** are written as they are read. -/
theorem Edit.written_encode (e : Edit) : Edit.Written e e.encode := by
  have hmodifier : e.modifier ∈ Modifier.all := by cases e.modifier; decide
  have haction : e.action ∈ EditAction.numbered := by cases e.action <;> decide
  exact ⟨_, _, Layout.case_caseBytes hmodifier (by decide),
    Layout.case_caseBytes haction (by decide), rfl⟩

/-- An edit takes some bytes. -/
theorem Edit.encode_ne_nil (e : Edit) : e.encode ≠ [] :=
  List.append_ne_nil_of_left_ne_nil (Varint.encode_ne_nil _) _

/-- **Rules** are written as they are read. -/
theorem StoredRule.written_encode {r : StoredRule} (h : r.encode.length < 0x10000000000000000) :
    StoredRule.Written r r.encode := by
  have hkind : r.kind ∈ TargetKind.numbered := by cases r.kind <;> decide
  have hlevel : r.level ∈ Level.all := by cases r.level <;> decide
  simp only [encode, List.length_append] at h
  refine ⟨_, _, _, _, _, Layout.case_caseBytes hkind (by decide), Layout.text_textBytes (by omega),
    Layout.optional_optionBytes textBytes fun m hm => ?_, Layout.case_caseBytes hlevel (by decide),
    Layout.counted_listBytes (by omega) (fun e _ => e.encode_ne_nil)
      (fun e _ _ => e.written_encode), ?_⟩
  · rw [hm, optionBytes, List.length_cons] at h
    exact Layout.text_textBytes (by omega)
  · rw [encode]
    simp only [List.append_assoc]

/-- A rule takes some bytes. -/
theorem StoredRule.encode_ne_nil (r : StoredRule) : r.encode ≠ [] := by
  simp only [encode, List.append_assoc]
  exact List.append_ne_nil_of_left_ne_nil (Varint.encode_ne_nil _) _

namespace Payload

/-- A payload that can be written: its numbers and the lengths in it fit into eight bytes, and its
digest has the length of one. -/
structure Fits (p : Payload) : Prop where
  /-- All of its bytes can be counted. -/
  length_lt : p.encode.length < 0x10000000000000000
  /-- The number of rules fits. -/
  ruleCount_lt : p.ruleCount < 0x10000000000000000
  /-- So does the number of classes. -/
  classCount_lt : p.classCount < 0x10000000000000000
  /-- The digest is as long as one. -/
  length_digest : ∀ d, p.sourceDigest = some d → d.length = digestLength

variable {p : Payload}

/-- There are no more rules in a payload than it has bytes. -/
theorem length_rules_le (p : Payload) : p.rules.length ≤ p.encode.length := by
  have hle := length_le_length_flatMap fun r (_ : r ∈ p.rules) => r.encode_ne_nil
  simp only [encode, listBytes, List.length_append]
  omega

/-- **Payloads** are written as they are read. -/
theorem Fits.written_encode (h : p.Fits) : Payload.Written p p.encode := by
  have hlength := h.length_lt
  simp only [encode, List.length_append] at hlength
  refine ⟨_, _, _, _, Layout.number_encode (.inr ⟨Nat.le_refl 8, h.ruleCount_lt⟩),
    Layout.number_encode (.inr ⟨Nat.le_refl 8, h.classCount_lt⟩),
    Layout.optional_optionBytes id fun d hd => ⟨h.length_digest d hd, rfl⟩,
    Layout.counted_listBytes (by omega) (fun r _ => r.encode_ne_nil)
      (fun r _ => r.written_encode), ?_⟩
  rw [encode]
  simp only [List.append_assoc]

/-- **A payload is read back** from its bytes. -/
theorem read_encode (h : p.Fits) : Payload.read p.encode = .ok (p, []) :=
  (read_exact _ _ _).2 ⟨p.encode, h.written_encode, (List.append_nil _).symm⟩

end Payload

end ClassAccess
