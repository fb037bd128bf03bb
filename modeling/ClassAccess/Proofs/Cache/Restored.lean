import ClassAccess.Proofs.Cache.Checks
import ClassAccess.Widening.Pass

/-!
# What a cache restores

A rule may have a target that is in no normal form. It is stored as it is, but rebuilt in normal
form, and only the rebuilt rule is checked. So a cache restores the normal form of its rule set, or
nothing: the number of classes tells no more than that two names of one class were brought together.

## Main results

* `Cache.decode_encode_eq_ok_iff` — which rule sets are restored, and as what.
* `Cache.restores_normal_form` — when this is the rule set itself.
* `Cache.restores_other_rules` — it need not be.
-/

set_option autoImplicit false

namespace ClassAccess.Cache

variable {s t : RuleSet} {source : Option String}

/-- No more bytes follow a header than its four bytes for their number can tell. -/
theorem length_lt_of_passes {bytes : List UInt8} (h : Check.Passes bytes .length) :
    bytes.length - headerLength < 0x100000000 := by
  have hfour : ((bytes.drop 12).take 4).length ≤ 4 := List.length_take_le ..
  calc bytes.length - headerLength = toldLength bytes := h.symm
    _ < Nat.pow 256 ((bytes.drop 12).take 4).length := littleEndian_lt _
    _ ≤ Nat.pow 256 4 := Nat.pow_le_pow_right (by decide) hfour

/-- A cache is a header and its payload. -/
theorem length_encode (s : RuleSet) (source : Option String) :
    (encode s source).length = headerLength + (payloadOf s source).encode.length := by
  simp only [encode, header, List.length_append, length_littleEndianBytes, length_checksum]
  rfl

/-- **Which rule sets are restored**: those whose length can be told, whose targets rule text can
name once they are in normal form, and of whose class names no two are ways to write one name. They
are restored in normal form. -/
theorem decode_encode_eq_ok_iff :
    decode (encode s source) = .ok t ↔ (payloadOf s source).encode.length < 0x100000000 ∧
      (∀ r ∈ s.rules.toList, r.target.normal.Readable) ∧ s.NamesApart ∧ s.normal = t := by
  constructor
  · intro h
    have hlength : (payloadOf s source).encode.length < 0x100000000 := by
      have hpasses := length_lt_of_passes ((decode_eq_ok_iff.1 h).1 .length (by decide))
      rwa [length_encode, Nat.add_sub_cancel_left] at hpasses
    rw [decode_encode_of_length hlength, mapError_eq_ok_iff] at h
    exact ⟨hlength, ruleSetOf_payloadOf_eq_ok_iff.1 h⟩
  · rintro ⟨hlength, h⟩
    rw [decode_encode_of_length hlength, mapError_eq_ok_iff]
    exact ruleSetOf_payloadOf_eq_ok_iff.2 h

/-- **Caches restore normal forms.** The cache of a rule set either restores the normal form of that
set or is refused, whatever the targets of its rules are and whichever source was given. What is
restored is the set itself exactly if all of its targets are in normal form. -/
theorem restores_normal_form (s : RuleSet) (source : Option String) :
    ((∃ t, decode (encode s source) = .ok t) ↔ (payloadOf s source).encode.length < 0x100000000 ∧
      (∀ r ∈ s.rules.toList, r.target.normal.Readable) ∧ s.NamesApart) ∧
      ∀ t, decode (encode s source) = .ok t → t.rules.toList = s.rules.toList.map Rule.normal ∧
        (t = s ↔ ∀ r ∈ s.rules.toList, r.target.normal = r.target) := by
  constructor
  · constructor
    · rintro ⟨t, h⟩
      obtain ⟨hlength, hreadable, hapart, -⟩ := decode_encode_eq_ok_iff.1 h
      exact ⟨hlength, hreadable, hapart⟩
    · rintro ⟨hlength, hreadable, hapart⟩
      exact ⟨s.normal, decode_encode_eq_ok_iff.2 ⟨hlength, hreadable, hapart, rfl⟩⟩
  · intro t h
    obtain ⟨-, -, -, rfl⟩ := decode_encode_eq_ok_iff.1 h
    exact ⟨s.rules_normal, RuleSet.normal_eq_iff⟩

/-- A rule for a method whose name is a star, with a descriptor, is restored as one for every
method. -/
theorem restores_normal_form_star :
    let s := RuleSet.ofRules [⟨.method "A" "*(I)V", .everywhere, Edits.none⟩]
    ∃ t, decode (encode s none) = .ok t ∧
      t.rules.toList = [⟨.method "A" "*()", .everywhere, Edits.none⟩] ∧ t ≠ s := by
  intro s
  have hlength : (payloadOf s none).encode.length < 0x100000000 := by decide +kernel
  have hreadable : ∀ r ∈ s.rules.toList, r.target.normal.Readable := by
    refine List.forall_mem_singleton.2 ⟨⟨by decide, Text.forall_not_blank (by decide), by decide⟩,
      Text.forall_not_blank (by decide), ⟨['*'], [')'], by decide, by decide, by decide⟩,
      fun _ => rfl⟩
  have hapart : s.NamesApart := by
    refine List.forall_mem_singleton.2 (List.forall_mem_singleton.2 fun _ => rfl)
  obtain ⟨hrestored, hresult⟩ := restores_normal_form s none
  obtain ⟨t, ht⟩ := hrestored.2 ⟨hlength, hreadable, hapart⟩
  obtain ⟨hrules, hsame⟩ := hresult t ht
  refine ⟨t, ht, hrules, fun h => ?_⟩
  exact absurd (hsame.1 h _ List.mem_cons_self) (by decide)

/-- A class `a/B` without members. -/
def plainClass : List UInt8 :=
  [0xca, 0xfe, 0xba, 0xbe, 0, 0, 0, 52, 0, 3, 1, 0, 3, 0x61, 0x2f, 0x42, 7, 0, 1, 0, 0x20, 0, 2, 0,
    0, 0, 0, 0, 0, 0, 0, 0, 0]

/-- **Not every rule set is restored as it was.** A rule for a class whose name has a slash applies
to no class, and what is restored of it does. -/
theorem restores_other_rules :
    ∃ s t : RuleSet, decode (encode s none) = .ok t ∧ t.rules ≠ s.rules ∧
      (s.widen plainClass).map Report.changes = .ok [] ∧
      (t.widen plainClass).map Report.changes = .ok [⟨.classItself, 0x20, 0x21⟩] := by
  have hreadable : (Target.classLevel "a.B").Readable :=
    ⟨by decide, Text.forall_not_blank (by decide), by decide⟩
  refine ⟨.ofRules [⟨.classLevel "a/B", .everywhere, Edits.none⟩],
    .ofRules [⟨.classLevel "a.B", .everywhere, Edits.none⟩], ?_, by decide, by decide +kernel,
    by decide +kernel⟩
  refine decode_encode_eq_ok_iff.2 ⟨by decide +kernel, List.forall_mem_singleton.2 hreadable, ?_,
    rfl⟩
  exact List.forall_mem_singleton.2 (List.forall_mem_singleton.2 fun _ => rfl)

end ClassAccess.Cache
