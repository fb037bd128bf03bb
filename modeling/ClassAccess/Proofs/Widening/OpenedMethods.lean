import ClassAccess.Proofs.Widening.FlagWords

/-!
# What becomes of the code of methods

A method that was private and is no longer private has the calls to itself bound when they run; the
code of every other method stays, and so does all other code of this one. The report lists the
calls.

## Main definitions

* `rewrittenSites` — the places in the code of a method where calls are rewritten.
* `Method.Rebound` — a method and what has become of it and its code.

## Main results

* `code?_updated` — the new code of a method.
* `rebound_of_answers` — every method is rebound.
* `RuleSet.code_of_widen` — what becomes of the code of all methods, and what is reported about it.
-/

set_option autoImplicit false

namespace ClassAccess

/-- Where calls of a method of the class `c` to itself are rewritten under the rules of a list. -/
def rewrittenSites (rules : List Rule) (c : ClassFile) (m : Method) : List Nat :=
  match openedSites c m (verdict rules c (.method m)).flags with
  | .ok pcs => pcs
  | .error _ => []

/-- The calls that are reported are those at the rewritten sites. -/
theorem callsOf_eq (rules : List Rule) (c : ClassFile) (m : Method) :
    callsOf rules c m = m.callsAt (rewrittenSites rules c m) := by
  rw [callsOf, rewrittenSites]
  cases openedSites c m (verdict rules c (.method m)).flags <;> rfl

/-- The method `m'` of the class `c'` is the method `m` of the class `c`, with the calls to itself
at `sites` bound when they run if it was opened. -/
structure Method.Rebound (c c' : ClassFile) (m m' : Method) (sites : List Nat) : Prop where
  /-- The name stays. -/
  name : m'.name = m.name
  /-- The descriptor stays. -/
  descriptor : m'.descriptor = m.descriptor
  /-- The place of the code stays. -/
  span : m'.code = m.code
  /-- The sites are in ascending order. -/
  ascending : sites.Pairwise (· < ·)
  /-- They are all the calls of the method to itself, if it was opened. -/
  mem_sites : ∀ pc, pc ∈ sites ↔
    m.isOpenedBy m'.flags = true ∧ ∃ code, c.code? m = some code ∧ CallsItself c m code pc
  /-- At the sites opcodes are exchanged, and no other byte of the code is. -/
  code : ∀ code, c.code? m = some code → ∃ code', c'.code? m' = some code' ∧
    code'.length = code.length ∧
    (∀ pc ∈ sites, code[pc]? = some 0xb7 ∧ code'[pc]? = some 0xb6) ∧
    ∀ pc, pc ∉ sites → code'[pc]? = code[pc]?
  /-- The code of a method that was not opened stays. -/
  unopened : m.isOpenedBy m'.flags = false → c'.code? m' = c.code? m

section Rebound

variable {s : RuleSet} {file : List UInt8} {c : ClassFile} {a : ClassFile.Answers}

/-- The new code of a method is the old one with its sites rewritten. -/
theorem code?_updated (h : ClassFile.read file = .ok c) (ha : s.answers c = .ok a) {m : Method}
    (hm : m ∈ c.methods) {pcs : List Nat}
    (hsites : openedSites c m (verdict s.rules.toList c (.method m)).flags = .ok pcs) (w : Flags) :
    (c.updated a).code? (m.withFlags w) = (c.code? m).map (SelfCall.rewrite pcs) := by
  have hnew : (c.updated a).code? (m.withFlags w) =
      m.code.map fun span => span.of (c.rewritten a) := rfl
  cases hspan : m.code with
  | none =>
    rw [hnew, hspan, ClassFile.code?_of_none hspan]
    rfl
  | some span =>
    obtain ⟨hold, -⟩ := ClassFile.code_of_method h hm hspan
    obtain ⟨pcs', hsites', hof⟩ := code_of_rewritten h ha hm hspan
    rw [hsites, Except.ok.injEq] at hsites'
    rw [hnew, hspan, hold, Option.map_some, Option.map_some, hof, hsites']

/-- The new code of a method has exchanged opcodes at the sites, and the old bytes elsewhere. -/
theorem exists_code_updated (h : ClassFile.read file = .ok c) (ha : s.answers c = .ok a)
    {m : Method} (hm : m ∈ c.methods) {pcs : List Nat}
    (hsites : openedSites c m (verdict s.rules.toList c (.method m)).flags = .ok pcs)
    {code : List UInt8} (hcode : c.code? m = some code) (w : Flags) :
    ∃ code', (c.updated a).code? (m.withFlags w) = some code' ∧ code'.length = code.length ∧
      (∀ pc ∈ pcs, code[pc]? = some 0xb7 ∧ code'[pc]? = some 0xb6) ∧
      ∀ pc, pc ∉ pcs → code'[pc]? = code[pc]? := by
  have hcalls := callsItself_of_mem h hm hsites hcode
  have hnew : (c.updated a).code? (m.withFlags w) = some (SelfCall.rewrite pcs code) := by
    rw [code?_updated h ha hm hsites, hcode, Option.map_some]
  have hbyte : ∀ pc, (SelfCall.rewrite pcs code)[pc]? =
      if pc ∈ pcs then some Instruction.invokeVirtual else code[pc]? :=
    fun pc => SelfCall.getElem?_rewrite fun pc hpc => (hcalls pc hpc).lt_length
  refine ⟨_, hnew, SelfCall.length_rewrite pcs code, fun pc hpc => ?_, fun pc hpc => ?_⟩
  · exact ⟨(hcalls pc hpc).opcode, (hbyte pc).trans (if_pos hpc)⟩
  · exact (hbyte pc).trans (if_neg hpc)

/-- **Every method is rebound** in the class with the answers.

**Proof sketch.** The new code is the old one with exchanged opcodes at the sites. If the method is
not opened there are no sites, and nothing is exchanged. -/
theorem rebound_of_answers (h : ClassFile.read file = .ok c) (ha : s.answers c = .ok a) {m : Method}
    (hm : m ∈ c.methods) :
    m.Rebound c (c.updated a) (m.withFlags (verdict s.rules.toList c (.method m)).flags)
      (rewrittenSites s.rules.toList c m) := by
  obtain ⟨pcs, hsites, -⟩ := ClassFile.exists_answerFor_of_mem ha hm
  have hpcs : rewrittenSites s.rules.toList c m = pcs := by
    rw [rewrittenSites, hsites]
  rw [hpcs]
  refine ⟨rfl, rfl, rfl, pairwise_openedSites h hm hsites, fun _ => mem_openedSites_iff h hm hsites,
    fun code hcode => exists_code_updated h ha hm hsites hcode _, fun hnot => ?_⟩
  have hnosite : pcs = [] := by
    have hnone := openedSites_of_not (c := c) hnot
    rw [Method.withFlags, hsites, Except.ok.injEq] at hnone
    exact hnone
  rw [code?_updated h ha hm hsites, hnosite, map_rewrite_nil]

/-- All methods of a class are rebound, one by one. -/
theorem forall₂_rebound (h : ClassFile.read file = .ok c) (ha : s.answers c = .ok a) :
    List.Forall₂ (fun m m' => m.Rebound c (c.updated a) m' (rewrittenSites s.rules.toList c m))
      c.methods (c.updated a).methods := by
  rw [methods_updated ha, List.forall₂_map_right_iff, List.forall₂_same]
  exact fun m hm => rebound_of_answers h ha hm

end Rebound

namespace RuleSet

variable {s : RuleSet} {file : List UInt8} {r : Report}

/-- **The code of a method changes only where the method calls itself, and only if it was opened**:
there, a call that was bound beforehand is bound when it runs. The report lists exactly these calls,
in the order of the file. -/
theorem code_of_widen (h : s.widen file = .ok r) :
    ∃ (c c' : ClassFile) (sites : Method → List Nat), ClassFile.read file = .ok c ∧
      ClassFile.read r.bytes = .ok c' ∧
      List.Forall₂ (fun m m' => m.Rebound c c' m' (sites m)) c.methods c'.methods ∧
      r.calls = c.methods.flatMap fun m => m.callsAt (sites m) := by
  obtain ⟨c, a, hread, ha, htells, hread'⟩ := read_of_widen h
  refine ⟨c, c.updated a, rewrittenSites s.rules.toList c, hread, hread',
    forall₂_rebound hread ha, ?_⟩
  rw [htells.calls]
  congr 1
  funext m
  exact callsOf_eq s.rules.toList c m

/-- The code of the small class. -/
theorem code_of_widen_sample :
    Sample.rules.widen Sample.file = .ok Sample.report ∧
      ∃ (c c' : ClassFile) (sites : Method → List Nat), ClassFile.read Sample.file = .ok c ∧
        ClassFile.read Sample.report.bytes = .ok c' ∧
        List.Forall₂ (fun m m' => m.Rebound c c' m' (sites m)) c.methods c'.methods ∧
        Sample.report.calls = c.methods.flatMap fun m => m.callsAt (sites m) :=
  ⟨Sample.widen_file, code_of_widen Sample.widen_file⟩

end RuleSet

end ClassAccess
