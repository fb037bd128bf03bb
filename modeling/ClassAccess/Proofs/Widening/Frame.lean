import ClassAccess.Proofs.Widening.FlagWords

/-!
# Where a file changes

A file changes only in the flag words and at the calls that the report lists, and each entry of the
report tells what was there and what is there now.

## Main definitions

* `ClassFile.changedParts` — the elements whose flag words change.

## Main results

* `mem_calls_iff`, `byte_of_site` — the calls that are reported, and the bytes there.
* `changed_or_called_of_ne` — a byte that changed belongs to a flag word that changed or is a call.
* `Report.Tells.isUnchanged_iff` — a report of no changes and no calls is one of a file that stays.
* `RuleSet.bytes_of_widen` — what the report says about the bytes of the new file.
-/

set_option autoImplicit false

namespace ClassAccess

section Frame

variable {s : RuleSet} {file : List UInt8} {c : ClassFile} {a : ClassFile.Answers}

/-! ## Calls -/

/-- The calls that are reported are at the sites of methods with code. -/
theorem mem_calls_iff (h : ClassFile.read file = .ok c) {rules : List Rule} {call : RewrittenCall} :
    call ∈ c.methods.flatMap (callsOf rules c) ↔
      ∃ m ∈ c.methods, ∃ span pcs pc, m.code = some span ∧
        openedSites c m (verdict rules c (.method m)).flags = .ok pcs ∧ pc ∈ pcs ∧
        call = ⟨m.signature, pc, span.start + pc⟩ := by
  rw [List.mem_flatMap]
  constructor
  · rintro ⟨m, hm, hcall⟩
    rw [callsOf] at hcall
    split at hcall
    · next pcs hsites =>
      obtain ⟨pc, hpc, rfl⟩ := List.mem_map.1 hcall
      obtain ⟨-, code, hcode, -⟩ := (mem_openedSites_iff h hm hsites).1 hpc
      obtain ⟨span, -, hspan, -⟩ := ClassFile.exists_span_of_code? h hm hcode
      refine ⟨m, hm, span, pcs, pc, hspan, hsites, hpc, ?_⟩
      rw [hspan]
      rfl
    · cases hcall
  · rintro ⟨m, hm, span, pcs, pc, hspan, hsites, hpc, rfl⟩
    refine ⟨m, hm, ?_⟩
    rw [callsOf, hsites]
    refine List.mem_map.2 ⟨pc, hpc, ?_⟩
    rw [hspan]
    rfl

/-- **At a site the opcode is exchanged**: the call was bound beforehand and is now bound when it
runs. -/
theorem byte_of_site (h : ClassFile.read file = .ok c) (ha : s.answers c = .ok a) {m : Method}
    (hm : m ∈ c.methods) {span : Span} (hspan : m.code = some span) {pcs : List Nat}
    (hsites : openedSites c m (verdict s.rules.toList c (.method m)).flags = .ok pcs) {pc : Nat}
    (hpc : pc ∈ pcs) :
    file[span.start + pc]? = some Instruction.invokeSpecial ∧
      (c.rewritten a)[span.start + pc]? = some Instruction.invokeVirtual := by
  obtain ⟨hcode, hlen, -⟩ := ClassFile.code_of_method h hm hspan
  have hcalls := callsItself_of_mem h hm hsites hcode
  have hlt := (hcalls pc hpc).lt_length
  obtain ⟨pcs', hsites', hof⟩ := code_of_rewritten h ha hm hspan
  rw [hsites, Except.ok.injEq] at hsites'
  subst hsites'
  rw [hlen] at hlt
  constructor
  · rw [← Span.getElem?_of hlt]
    exact (hcalls pc hpc).opcode
  · rw [← Span.getElem?_of hlt, hof,
      SelfCall.getElem?_rewrite fun pc hpc => (hcalls pc hpc).lt_length, if_pos hpc]

/-! ## Flag words -/

/-- The elements of a class whose flag words change under the rules of a list. -/
def ClassFile.changedParts (c : ClassFile) (rules : List Rule) : List Part :=
  c.parts.filter fun p => (verdict rules c p).flags ≠ p.flags

/-- The changes that are reported are those of the elements that change. -/
theorem filterMap_flagChange? (rules : List Rule) :
    c.parts.filterMap (flagChange? rules c) =
      (c.changedParts rules).map fun p => ⟨p.element, p.flags, (verdict rules c p).flags⟩ := by
  rw [ClassFile.changedParts, ← List.filterMap_eq_map', List.filterMap_filter]
  congr 1
  funext p
  rw [flagChange?]
  by_cases hp : (verdict rules c p).flags = p.flags
  · rw [if_pos hp, decide_eq_false (not_not_intro hp), if_neg Bool.false_ne_true]
  · rw [if_neg hp, decide_eq_true hp, if_pos rfl]

/-- **A byte that changed belongs to a flag word that changed or is a call.** -/
theorem changed_or_called_of_ne (h : ClassFile.read file = .ok c) (ha : s.answers c = .ok a)
    {i : Nat} (hne : (c.rewritten a)[i]? ≠ file[i]?) :
    (∃ p ∈ c.changedParts s.rules.toList, (Span.word p.offset).Covers i) ∨
      ∃ call ∈ c.methods.flatMap (callsOf s.rules.toList c), call.offset = i := by
  obtain ⟨p, hp, j, rfl, hj, hbyte⟩ := ClassFile.exists_patch_of_ne h (fills_of_answersFor h ha) hne
  obtain ⟨q, hq, rfl⟩ | ⟨m, hm, span, code, pcs, hspan, hcode, hsites, rfl⟩ := patch_cases ha hp
  · refine .inl ⟨q, List.mem_filter.2 ⟨hq, decide_eq_true fun hflags => hbyte ?_⟩, ?_⟩
    · rw [hflags, ← ClassFile.word_of_part h hq]
      exact Span.getElem?_of hj
    · exact ⟨Nat.le_add_right .., Nat.add_lt_add_left hj _⟩
  · obtain ⟨hcode', hlen, -⟩ := ClassFile.code_of_method h hm hspan
    rw [hcode', Option.some.injEq] at hcode
    subst hcode
    by_cases hmem : j ∈ pcs
    · exact .inr ⟨_, (mem_calls_iff h).2 ⟨m, hm, span, pcs, j, hspan, hsites, hmem, rfl⟩, rfl⟩
    · refine absurd ?_ hbyte
      have hcalls := callsItself_of_mem h hm hsites hcode'
      have hjlt : j < span.length := by
        rwa [SelfCall.length_rewrite, hlen] at hj
      rw [SelfCall.getElem?_rewrite fun pc hpc => (hcalls pc hpc).lt_length, if_neg hmem]
      exact Span.getElem?_of hjlt

end Frame

/-! ## The report about the bytes -/

namespace Report.Tells

variable {s : RuleSet} {file : List UInt8} {c : ClassFile} {a : ClassFile.Answers} {r : Report}

/-- The changes of a report are those of the elements that change. -/
theorem changes_eq_map {rules : List Rule} (h : r.Tells rules c a) :
    r.changes =
      (c.changedParts rules).map fun p => ⟨p.element, p.flags, (verdict rules c p).flags⟩ :=
  h.changes.trans (filterMap_flagChange? rules)

/-- At each call of a report the opcode is exchanged. -/
theorem byte_of_call (h : r.Tells s.rules.toList c a) (hread : ClassFile.read file = .ok c)
    (ha : s.answers c = .ok a) {call : RewrittenCall} (hcall : call ∈ r.calls) :
    file[call.offset]? = some 0xb7 ∧ r.bytes[call.offset]? = some 0xb6 := by
  rw [h.calls] at hcall
  obtain ⟨m, hm, span, pcs, pc, hspan, hsites, hpc, rfl⟩ := (mem_calls_iff hread).1 hcall
  rw [h.bytes]
  exact byte_of_site hread ha hm hspan hsites hpc

/-- The flag word of each element before and after. -/
theorem word_of_part (h : r.Tells s.rules.toList c a) (hread : ClassFile.read file = .ok c)
    (ha : s.answers c = .ok a) {p : Part} (hp : p ∈ c.parts) :
    (Span.word p.offset).of file = wordBytes p.flags ∧
      (Span.word p.offset).of r.bytes = wordBytes (verdict s.rules.toList c p).flags := by
  rw [h.bytes]
  exact ⟨ClassFile.word_of_part hread hp, word_of_rewritten hread ha hp⟩

/-- **A report of no changes and no calls is one of a file that stays.**

**Proof sketch.** A byte that changed would belong to a change or a call; and each of these tells of
bytes that differ. -/
theorem isUnchanged_iff (h : r.Tells s.rules.toList c a) (hread : ClassFile.read file = .ok c)
    (ha : s.answers c = .ok a) : r.isUnchanged = true ↔ r.bytes = file := by
  rw [Report.isUnchanged, Bool.and_eq_true, List.isEmpty_iff, List.isEmpty_iff, h.changes_eq_map,
    List.map_eq_nil_iff]
  constructor
  · rintro ⟨hnochange, hnocall⟩
    apply List.ext_getElem?
    intro i
    by_contra hne
    rw [h.bytes] at hne
    rcases changed_or_called_of_ne hread ha hne with ⟨p, hp, -⟩ | ⟨call, hcall, -⟩
    · rw [hnochange] at hp
      cases hp
    · rw [← h.calls, hnocall] at hcall
      cases hcall
  · intro hsame
    rw [List.eq_nil_iff_forall_not_mem, List.eq_nil_iff_forall_not_mem]
    constructor
    · intro p hp
      obtain ⟨hmem, hchanged⟩ := List.mem_filter.1 hp
      obtain ⟨hold, hnew⟩ := h.word_of_part hread ha hmem
      rw [hsame, hold] at hnew
      exact of_decide_eq_true hchanged (wordBytes_injective hnew).symm
    · intro call hcall
      obtain ⟨hold, hnew⟩ := h.byte_of_call hread ha hcall
      rw [hsame, hold] at hnew
      cases hnew

end Report.Tells

namespace RuleSet

variable {s : RuleSet} {file : List UInt8} {r : Report}

/-- **A file changes only where the report says so**, and as it says. -/
theorem bytes_of_widen (h : s.widen file = .ok r) :
    r.bytes.length = file.length ∧
      ∃ c ps, ClassFile.read file = .ok c ∧ ps.Sublist c.parts ∧
        List.Forall₂ (fun p (change : FlagChange) => change.element = p.element ∧
          (Span.word p.offset).of file = wordBytes change.before ∧
          (Span.word p.offset).of r.bytes = wordBytes change.after) ps r.changes ∧
        (∀ call ∈ r.calls, file[call.offset]? = some 0xb7 ∧ r.bytes[call.offset]? = some 0xb6) ∧
        (∀ i, r.bytes[i]? ≠ file[i]? →
          (∃ p ∈ ps, (Span.word p.offset).Covers i) ∨ ∃ call ∈ r.calls, call.offset = i) ∧
        (r.isUnchanged = true ↔ r.bytes = file) := by
  obtain ⟨c, a, hread, ha, htells⟩ := exists_answers_of_widen h
  have hlen : r.bytes.length = file.length := by
    rw [htells.bytes, ClassFile.length_rewritten, ClassFile.bytes_of_read hread]
  have hsub : (c.changedParts s.rules.toList).Sublist c.parts := List.filter_sublist
  refine ⟨hlen, c, c.changedParts s.rules.toList, hread, hsub, ?_,
    fun call hcall => htells.byte_of_call hread ha hcall, fun i hne => ?_,
    htells.isUnchanged_iff hread ha⟩
  · rw [htells.changes_eq_map, List.forall₂_map_right_iff, List.forall₂_same]
    exact fun p hp => ⟨rfl, htells.word_of_part hread ha (hsub.subset hp)⟩
  · rw [htells.bytes] at hne
    rw [htells.calls]
    exact changed_or_called_of_ne hread ha hne

/-- The bytes of the small class. -/
theorem bytes_of_widen_sample :
    Sample.rules.widen Sample.file = .ok Sample.report ∧
      Sample.report.bytes.length = Sample.file.length ∧
      ∃ c ps, ClassFile.read Sample.file = .ok c ∧ ps.Sublist c.parts ∧
        List.Forall₂ (fun p (change : FlagChange) => change.element = p.element ∧
          (Span.word p.offset).of Sample.file = wordBytes change.before ∧
          (Span.word p.offset).of Sample.report.bytes = wordBytes change.after)
          ps Sample.report.changes ∧
        (∀ call ∈ Sample.report.calls, Sample.file[call.offset]? = some 0xb7 ∧
          Sample.report.bytes[call.offset]? = some 0xb6) ∧
        (∀ i, Sample.report.bytes[i]? ≠ Sample.file[i]? →
          (∃ p ∈ ps, (Span.word p.offset).Covers i) ∨
            ∃ call ∈ Sample.report.calls, call.offset = i) ∧
        (Sample.report.isUnchanged = true ↔ Sample.report.bytes = Sample.file) :=
  ⟨Sample.widen_file, bytes_of_widen Sample.widen_file⟩

end RuleSet

end ClassAccess
