import ClassAccess.Proofs.Cache.Contents
import ClassAccess.Proofs.Cache.Header
import ClassAccess.Proofs.Cache.Writing
import ClassAccess.Proofs.Rule.NormalForm

/-!
# Caches are read back

The cache of a rule set that rule text can hold is that rule set again, wherever its length can be
told in the header.

## Main results

* `StoredRule.rebuilt_ofRule` — what is stored of a rule makes up the rule in normal form.
* `Rule.readable_of_ofText` — every rule of a set that is loaded from text is readable.
* `Cache.ruleSetOf_payloadOf_eq_ok_iff` — when the payload of a set is taken.
* `Cache.decode_encode` — the cache of a set of readable rules is that set.
-/

set_option autoImplicit false

namespace ClassAccess

/-! ## Rules -/

namespace StoredRule

variable {r : Rule}

/-- What is stored of a rule has a member exactly if its target has one. -/
theorem consistent_ofRule (r : Rule) : (ofRule r).Consistent := by
  rw [Consistent, ofRule]
  cases r.target <;> simp [Target.member?, Target.kind]

/-- What is stored of a rule makes up its target in normal form. -/
theorem target_ofRule (r : Rule) : (ofRule r).target = r.target.normal := by
  rw [ofRule, target]
  cases r.target <;> rfl

/-- **What is stored of a rule** makes up the rule in normal form. -/
theorem rebuilt_ofRule (r : Rule) : (ofRule r).rebuilt = r.normal := by
  rw [rebuilt, target_ofRule]
  show (⟨r.target.normal, r.level, Edits.ofList r.edits.toList⟩ : Rule) = r.normal
  rw [Edits.ofList_toList]
  rfl

/-- So it is taken exactly if rule text can name this normal form. -/
theorem valid_ofRule_iff : (ofRule r).Valid ↔ r.target.normal.Readable := by
  have hparse : Rule.parseLine 1 r.normal.text = .ok (some r.normal) ↔ r.target.normal.Readable :=
    Rule.parseLine_text_iff
  rw [← hparse, ← rebuilt_ofRule]
  exact ⟨Valid.readsBack, fun h => ⟨consistent_ofRule r, h⟩⟩

end StoredRule

/-- What is read from lines is readable. -/
theorem Rule.readable_of_parseLines {first : Nat} {lines : List String} {rules : List Rule}
    (h : parseLines first lines = .ok rules) : ∀ r ∈ rules, r.target.Readable := by
  induction lines generalizing first rules with
  | nil =>
    cases h
    exact nofun
  | cons raw lines ih =>
    obtain ⟨rule, hrule, h⟩ := bind_eq_ok_iff.1 h
    obtain ⟨rest, hrest, h⟩ := bind_eq_ok_iff.1 h
    cases h
    intro r hr
    obtain hr | hr := List.mem_append.1 hr
    · obtain rfl := Option.mem_toList.1 hr
      exact readable_of_parseLine hrule
    · exact ih hrest r hr

/-- **Every rule of a set that is loaded from text** is readable. -/
theorem Rule.readable_of_ofText {text : String} {s : RuleSet} (h : RuleSet.ofText text = .ok s) :
    ∀ r ∈ s.rules.toList, r.target.Readable := by
  obtain ⟨rules, hrules, rfl⟩ := map_eq_ok_iff.1 h
  rw [RuleSet.ofRules, List.toList_toArray]
  exact readable_of_parseLines hrules

/-! ## Rule sets -/

namespace Cache

variable {s : RuleSet} {source : Option String}

/-- The payload of a set makes up the set in normal form. -/
theorem ruleSet_payloadOf (s : RuleSet) (source : Option String) :
    (payloadOf s source).ruleSet = s.normal := by
  rw [Payload.ruleSet, payloadOf, List.map_map]
  exact congrArg RuleSet.ofRules (List.map_congr_left fun r _ => StoredRule.rebuilt_ofRule r)

/-- **The payload of a set is taken** exactly if rule text can name the normal forms of its targets
and these are about as many classes. -/
theorem ruleSetOf_payloadOf_eq_ok_iff {t : RuleSet} :
    ruleSetOf (payloadOf s source) = .ok t ↔
      (∀ r ∈ s.rules.toList, r.target.normal.Readable) ∧ s.NamesApart ∧ s.normal = t := by
  have hcount : (payloadOf s source).ruleCount = (payloadOf s source).rules.length := by
    rw [payloadOf, List.length_map, Array.length_toList]
    rfl
  have hvalid : (∀ r ∈ (payloadOf s source).rules, r.Valid) ↔
      ∀ r ∈ s.rules.toList, r.target.normal.Readable := by
    rw [payloadOf, List.forall_mem_map]
    exact forall₂_congr fun r _ => StoredRule.valid_ofRule_iff
  have hclasses : (payloadOf s source).classCount = (payloadOf s source).classNames.length ↔
      s.NamesApart := by
    rw [← RuleSet.size_byClass_normal_iff, ← Payload.size_byClass_ruleSet, ruleSet_payloadOf]
    exact eq_comm
  rw [ruleSetOf_eq_ok_iff, hvalid, hclasses, ruleSet_payloadOf]
  exact and_iff_right hcount

/-- The payload of a rule set is read back from its bytes. -/
theorem read_payloadOf (h : (payloadOf s source).encode.length < 0x100000000) :
    Payload.read (payloadOf s source).encode = .ok (payloadOf s source, []) := by
  have hrules : s.size ≤ (payloadOf s source).encode.length := by
    have hle := (payloadOf s source).length_rules_le
    rwa [payloadOf, List.length_map, Array.length_toList] at hle
  have hclasses : s.byClass.size ≤ s.size := by
    rw [s.size_byClass]
    refine (List.dedup_sublist _).length_le.trans ?_
    rw [List.length_map, Array.length_toList]
    exact Nat.le_refl _
  refine Payload.read_encode ⟨by omega, ?_, ?_, fun d hd => ?_⟩
  · show s.size < _
    omega
  · show s.byClass.size < _
    omega
  · obtain ⟨text, -, rfl⟩ := Option.map_eq_some_iff.1 hd
    exact Blake3.length_hash _

/-- **What becomes of the cache of a rule set** is what becomes of its payload. -/
theorem decode_encode_of_length (hlength : (payloadOf s source).encode.length < 0x100000000) :
    decode (encode s source) = (ruleSetOf (payloadOf s source)).mapError .invalid :=
  decode_of_read (checkedPayload_header hlength) (read_payloadOf hlength)

/-- **The cache of a set of readable rules** is that set. -/
theorem decode_encode (h : ∀ r ∈ s.rules.toList, r.target.Readable)
    (hlength : (payloadOf s source).encode.length < 0x100000000) :
    decode (encode s source) = .ok s := by
  have hnormal : ∀ r ∈ s.rules.toList, r.target.normal = r.target := fun r hr => (h r hr).normal_eq
  have hreadable : ∀ r ∈ s.rules.toList, r.target.normal.Readable := by
    intro r hr
    rw [hnormal r hr]
    exact h r hr
  have htaken : ruleSetOf (payloadOf s source) = .ok s := ruleSetOf_payloadOf_eq_ok_iff.2
    ⟨hreadable, RuleSet.namesApart_of_normal hnormal, RuleSet.normal_eq_iff.2 hnormal⟩
  rw [decode_encode_of_length hlength, htaken]
  rfl

/-- **Caches restore rule sets.** The cache of a set whose rules are each read back from their text
is that set, with its grouping, so that whatever is asked of it has the same answer. It does not
matter which source was given, as long as the length of the payload can be told. Every set that is
loaded from text has such rules. -/
theorem decode_encode_of_reads_back :
    (∀ (s : RuleSet) (source : Option String),
      (∀ r ∈ s.rules.toList, Rule.parseLine 1 r.text = .ok (some r)) →
        (payloadOf s source).encode.length < 0x100000000 → decode (encode s source) = .ok s) ∧
      ∀ (text : String) (s : RuleSet), RuleSet.ofText text = .ok s →
        ∀ r ∈ s.rules.toList, Rule.parseLine 1 r.text = .ok (some r) :=
  ⟨fun _ _ h hlength => decode_encode (fun r hr => Rule.parseLine_text_iff.1 (h r hr)) hlength,
    fun _ _ h r hr => Rule.parseLine_text (Rule.readable_of_ofText h r hr)⟩

/-- The rules of a short text, with the digest of that text. -/
theorem decode_encode_short_text :
    let text := "public-f a.B x#1\nprivate a.B f()V\n"
    ∃ s, RuleSet.ofText text = .ok s ∧ s.size = 2 ∧ decode (encode s (some text)) = .ok s := by
  intro text
  have hparse : Rule.parseText text =
      .ok [⟨.field "a.B" "x", .everywhere, Edits.ofList [⟨.final, .clear⟩]⟩,
        ⟨.method "a.B" "f()V", .ownClass, Edits.none⟩] := by
    decide +kernel
  have hload := congrArg (RuleSet.ofRules <$> ·) hparse
  refine ⟨_, hload, rfl, ?_⟩
  refine decode_encode_of_reads_back.1 _ _ (decode_encode_of_reads_back.2 text _ hload) ?_
  decide +kernel

end Cache

end ClassAccess
