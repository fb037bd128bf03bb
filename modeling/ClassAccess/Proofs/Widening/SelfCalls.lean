import ClassAccess.Proofs.ClassFile.Boundaries
import ClassAccess.Proofs.ClassFile.References
import ClassAccess.Proofs.Widening.Files

/-!
# Which calls are rewritten

The calls of a method to itself are instructions of its code, found by walking it and by following
references through the constant pool. Here they are described without a walk, as places in the code
and chains of slots; the sites found are exactly these, and rewriting them changes their opcodes
only.

## Main definitions

* `CallsItself` — where a method calls itself by a call that is bound beforehand.

## Main results

* `mem_sites_iff`, `pairwise_sites` — the sites are these places, in order.
* `SelfCall.getElem?_rewrite` — what rewriting does to each byte.
* `exists_row_rewrite` — rewriting keeps the places and the lengths of instructions.
* `fits_of_answersFor` — rewritten code is good code.
-/

set_option autoImplicit false

namespace ClassAccess

/-! ## Sites -/

/-- At `pc`, the code of the method `m` of the class `c` calls `m` by an instruction that is bound
beforehand. -/
structure CallsItself (c : ClassFile) (m : Method) (code : List UInt8) (pc : Nat) : Prop where
  /-- An instruction starts there. -/
  boundary : Code.Boundary code pc
  /-- It is a call that is bound beforehand. -/
  opcode : code[pc]? = some Instruction.invokeSpecial
  /-- The word behind its opcode refers to the method itself. -/
  operand : ∃ index, (Span.word (pc + 1)).of code = wordBytes index ∧
    c.pool.RefersTo index c.name m.name m.descriptor

/-- A call that is bound beforehand has three bytes. -/
theorem Instruction.length_invokeSpecial {pc n : Nat} {ahead : List UInt8}
    (h : lengthAt pc ahead = .ok n) (hop : ahead[0]? = some invokeSpecial) :
    n = 3 ∧ 3 ≤ ahead.length := by
  cases ahead with
  | nil => cases h
  | cons opcode operands =>
    cases hop
    obtain ⟨hclaimed, hlen⟩ := lengthAt_cons_eq_ok_iff.1 h
    have hshape : Shape.ofOpcode invokeSpecial = .fixed 3 := by decide
    simp only [claimedLength, hshape] at hclaimed
    cases hclaimed
    exact ⟨rfl, hlen⟩

/-- The bytes of a word, as far as there are any. -/
theorem Span.of_word (o : Nat) (bytes : List UInt8) :
    (Span.word o).of bytes =
      bytes[o]?.toList ++ (bytes[o]?.bind fun _ => bytes[o + 1]?).toList := by
  rw [Span.of, Span.word]
  have hget : ∀ i, (bytes.drop o)[i]? = bytes[o + i]? := by
    intro i
    exact List.getElem?_drop
  rw [← Nat.add_zero o, ← hget 0, Nat.add_zero, ← hget 1]
  cases bytes.drop o with
  | nil => rfl
  | cons x rest => cases rest <;> rfl

/-- The word right behind the opcode of an instruction of three bytes or more. -/
theorem Instruction.operand?_eq_some_iff {i : Instruction} {code : List UInt8} {index : UInt16}
    (hlen : 3 ≤ i.length) :
    i.operand? code = some index ↔ (Span.word (i.pc + 1)).of code = wordBytes index := by
  rw [operand?, if_neg (by omega), Span.of_word]
  cases code[i.pc + 1]? with
  | none =>
    constructor
    · intro h
      cases h
    · intro h
      cases congrArg List.length h
  | some x =>
    cases code[i.pc + 2]? with
    | none =>
      constructor
      · intro h
        cases h
      · intro h
        cases congrArg List.length h
    | some y =>
      constructor
      · intro h
        cases h
        exact (wordBytes_ofNat_bigEndian rfl).symm
      · intro h
        have hxy : [x, y] = wordBytes index := h
        show some (UInt16.ofNat (bigEndian [x, y])) = some index
        rw [hxy, bigEndian_wordBytes, UInt16.ofNat_toNat]

/-- A call that is bound beforehand has a word right behind its opcode. -/
theorem Code.Holds.exists_operand {code : List UInt8} {i : Instruction} (hi : Holds code i)
    (hop : i.opcode = Instruction.invokeSpecial) :
    ∃ index, i.operand? code = some index ∧ (Span.word (i.pc + 1)).of code = wordBytes index := by
  have hfirst : (code.drop i.pc)[0]? = some Instruction.invokeSpecial := by
    rw [List.getElem?_drop, Nat.add_zero, hi.opcode, hop]
  obtain ⟨hlen, hroom⟩ := Instruction.length_invokeSpecial hi.length hfirst
  rw [List.length_drop] at hroom
  have hsome : ∃ index, i.operand? code = some index := by
    rw [Instruction.operand?, if_neg (by omega), List.getElem?_eq_getElem (by omega),
      List.getElem?_eq_getElem (by omega)]
    exact ⟨_, rfl⟩
  obtain ⟨index, hindex⟩ := hsome
  exact ⟨index, hindex, (Instruction.operand?_eq_some_iff (Nat.le_of_eq hlen.symm)).1 hindex⟩

/-- Where an instruction starts, the opcode of a call that is bound beforehand and a word behind it
are such a call. -/
theorem Code.Boundary.holds_invokeSpecial {code : List UInt8} {pc : Nat} {index : UInt16}
    (hpc : Boundary code pc) (hop : code[pc]? = some Instruction.invokeSpecial)
    (hword : (Span.word (pc + 1)).of code = wordBytes index) :
    Holds code ⟨pc, Instruction.invokeSpecial, 3⟩ := by
  have hlen : 2 = min 2 (code.length - (pc + 1)) := by
    have := congrArg List.length hword
    rw [Span.of, List.length_take, List.length_drop] at this
    exact this.symm
  refine ⟨hpc, hop, ?_⟩
  have hfirst : (code.drop pc)[0]? = some Instruction.invokeSpecial := by
    rw [List.getElem?_drop, Nat.add_zero, hop]
  cases hd : code.drop pc with
  | nil =>
    rw [hd] at hfirst
    cases hfirst
  | cons opcode operands =>
    rw [hd] at hfirst
    cases hfirst
    have hdrop : operands.length + 1 = code.length - pc := by
      have := congrArg List.length hd
      rw [List.length_drop] at this
      exact this.symm
    rw [Instruction.lengthAt_cons_eq_ok_iff]
    constructor
    · have hshape : Shape.ofOpcode Instruction.invokeSpecial = .fixed 3 := by decide
      simp only [Instruction.claimedLength, hshape]
    · show 3 ≤ operands.length + 1
      omega

namespace SelfCall

variable {pool : ConstantPool} {callee : MethodRef} {code : List UInt8}

/-- The sites among instructions are those that are sites, in their order. -/
theorem eq_of_sitesAmong {is : List Instruction} {pcs : List Nat}
    (h : sitesAmong pool callee code is = .ok pcs) :
    pcs = (is.filter fun i => isSite pool callee code i = .ok true).map Instruction.pc := by
  induction is generalizing pcs with
  | nil =>
    cases h
    rfl
  | cons i is ih =>
    rw [sitesAmong] at h
    obtain ⟨here, hhere, h⟩ := bind_eq_ok_iff.1 h
    obtain ⟨later, hlater, h⟩ := bind_eq_ok_iff.1 h
    cases h
    rw [List.filter_cons, hhere, ih hlater]
    cases here <;> rfl

/-- The sites of a row of instructions. -/
theorem eq_of_sites {owner name descriptor : String} {is : List Instruction} {pcs : List Nat}
    (hrow : Code.Row 0 code is) (h : sites pool owner name descriptor code = .ok pcs) :
    pcs = (is.filter fun i =>
      isSite pool ⟨owner, name, descriptor, false⟩ code i = .ok true).map Instruction.pc := by
  have hwalk : Code.walk code = ⟨is, none⟩ := hrow.walkFrom_eq
  simp only [sites, hwalk] at h
  obtain ⟨_, hamong, h⟩ := bind_eq_ok_iff.1 h
  cases h
  exact eq_of_sitesAmong hamong

/-- What a site is: a call that is bound beforehand and whose word refers to the method. -/
theorem isSite_eq_true_iff {owner name descriptor : String} {i : Instruction}
    (hi : Code.Holds code i) :
    isSite pool ⟨owner, name, descriptor, false⟩ code i = .ok true ↔
      i.opcode = Instruction.invokeSpecial ∧
        ∃ index, (Span.word (i.pc + 1)).of code = wordBytes index ∧
          pool.RefersTo index owner name descriptor := by
  rw [isSite]
  by_cases hop : i.opcode = Instruction.invokeSpecial
  · obtain ⟨index, hindex, hword⟩ := hi.exists_operand hop
    rw [if_neg (not_not_intro hop), hindex]
    constructor
    · intro h
      obtain ⟨found, hfound, h⟩ := bind_eq_ok_iff.1 h
      have hcallee : found = ⟨owner, name, descriptor, false⟩ := of_decide_eq_true (Except.ok.inj h)
      rw [hcallee] at hfound
      exact ⟨hop, index, hword, ConstantPool.methodRef_eq_ok_iff.1 hfound⟩
    · rintro ⟨-, index', hword', hrefers⟩
      cases wordBytes_injective (hword.symm.trans hword')
      refine bind_eq_ok_iff.2 ⟨_, ConstantPool.methodRef_eq_ok_iff.2 hrefers, ?_⟩
      exact congrArg Except.ok (decide_eq_true rfl)
  · rw [if_pos hop]
    exact ⟨nofun, fun h => absurd h.1 hop⟩

/-- **What rewriting does to each byte.** -/
theorem getElem?_rewrite {pcs : List Nat} {i : Nat} (hpcs : ∀ pc ∈ pcs, pc < code.length) :
    (rewrite pcs code)[i]? = if i ∈ pcs then some Instruction.invokeVirtual else code[i]? := by
  induction pcs generalizing code with
  | nil => rfl
  | cons pc pcs ih =>
    obtain ⟨hpc, hrest⟩ := List.forall_mem_cons.1 hpcs
    have hset :
        rewrite (pc :: pcs) code = rewrite pcs (code.set pc Instruction.invokeVirtual) := rfl
    rw [hset, ih (by simpa using hrest)]
    by_cases hi : i ∈ pcs
    · rw [if_pos hi, if_pos (List.mem_cons_of_mem _ hi)]
    · rw [if_neg hi]
      by_cases heq : i = pc
      · subst heq
        rw [List.getElem?_set_self hpc, if_pos List.mem_cons_self]
      · rw [List.getElem?_set_ne (Ne.symm heq), if_neg (by simp [heq, hi])]

end SelfCall

section Calls

variable {c : ClassFile} {m : Method} {code : List UInt8}

/-- A call of a method to itself is an instruction of its code. -/
theorem CallsItself.holds {pc : Nat} (h : CallsItself c m code pc) :
    Code.Holds code ⟨pc, Instruction.invokeSpecial, 3⟩ := by
  obtain ⟨index, hword, -⟩ := h.operand
  exact h.boundary.holds_invokeSpecial h.opcode hword

/-- **The sites are the places where the method calls itself.** -/
theorem mem_sites_iff {n : Nat} (hcode : Code.count code = .ok n) {pcs : List Nat}
    (h : SelfCall.sites c.pool c.name m.name m.descriptor code = .ok pcs) {pc : Nat} :
    pc ∈ pcs ↔ CallsItself c m code pc := by
  obtain ⟨is, hrow, -⟩ := Code.exists_row_of_count hcode
  rw [SelfCall.eq_of_sites hrow h, List.mem_map]
  constructor
  · rintro ⟨i, hi, rfl⟩
    obtain ⟨hmem, hsite⟩ := List.mem_filter.1 hi
    have hholds := hrow.mem_iff.1 hmem
    obtain ⟨hop, hoperand⟩ := (SelfCall.isSite_eq_true_iff hholds).1 (of_decide_eq_true hsite)
    exact ⟨hholds.boundary, hop ▸ hholds.opcode, hoperand⟩
  · intro hcalls
    refine ⟨⟨pc, Instruction.invokeSpecial, 3⟩, List.mem_filter.2 ⟨?_, decide_eq_true ?_⟩, rfl⟩
    · exact hrow.mem_iff.2 hcalls.holds
    · exact (SelfCall.isSite_eq_true_iff hcalls.holds).2 ⟨rfl, hcalls.operand⟩

/-- The sites are in ascending order. -/
theorem pairwise_sites {n : Nat} (hcode : Code.count code = .ok n) {pcs : List Nat}
    (h : SelfCall.sites c.pool c.name m.name m.descriptor code = .ok pcs) :
    pcs.Pairwise (· < ·) := by
  obtain ⟨is, hrow, -⟩ := Code.exists_row_of_count hcode
  rw [SelfCall.eq_of_sites hrow h, List.pairwise_map]
  exact hrow.pairwise.sublist List.filter_sublist

/-- A call of a method to itself stands in its code. -/
theorem CallsItself.lt_length {pc : Nat} (h : CallsItself c m code pc) : pc < code.length := by
  by_contra hpc
  have hopcode := h.opcode
  rw [List.getElem?_eq_none (by omega)] at hopcode
  cases hopcode

/-- **Code in which calls were rewritten is a row of instructions**, which start in the same places
and have the same lengths. -/
theorem exists_row_rewrite {is : List Instruction} (hrow : Code.Row 0 code is) {pcs : List Nat}
    (hpcs : ∀ pc ∈ pcs, CallsItself c m code pc) :
    ∃ is', Code.Row 0 (SelfCall.rewrite pcs code) is' ∧
      is'.map (fun i => (i.pc, i.length)) = is.map fun i => (i.pc, i.length) := by
  refine hrow.exists_of_opened (SelfCall.length_rewrite pcs code) fun j => ?_
  rw [SelfCall.getElem?_rewrite fun pc hpc => (hpcs pc hpc).lt_length]
  by_cases hj : j ∈ pcs
  · have hcalls := hpcs j hj
    rw [if_pos hj]
    exact .inr ⟨hcalls.opcode, rfl, _, hrow.mem_iff.2 hcalls.holds, (Nat.zero_add j).symm⟩
  · rw [if_neg hj]
    exact .inl rfl

/-- Code in which calls were rewritten has as many instructions as before. -/
theorem count_rewrite {n : Nat} (hcode : Code.count code = .ok n) {pcs : List Nat}
    (hpcs : ∀ pc ∈ pcs, CallsItself c m code pc) :
    Code.count (SelfCall.rewrite pcs code) = .ok n := by
  obtain ⟨is, hrow, rfl⟩ := Code.exists_row_of_count hcode
  obtain ⟨is', hrow', hmap⟩ := exists_row_rewrite hrow hpcs
  have hlen := congrArg List.length hmap
  rw [List.length_map, List.length_map] at hlen
  rw [hrow'.count_eq, hlen]

end Calls

/-! ## Opened methods -/

section Opened

variable {file : List UInt8} {c : ClassFile} {m : Method} {after : Flags} {pcs : List Nat}

/-- The sites of a method that is opened are those of its code, which is a row of instructions. -/
theorem sites_cases (h : ClassFile.read file = .ok c) (hm : m ∈ c.methods)
    (hsites : openedSites c m after = .ok pcs) :
    (m.isOpenedBy after = true ∧ ∃ code n, c.code? m = some code ∧ Code.count code = .ok n ∧
      SelfCall.sites c.pool c.name m.name m.descriptor code = .ok pcs) ∨
      (m.isOpenedBy after = true → c.code? m = none) ∧ pcs = [] := by
  rcases openedSites_cases c m after with ⟨hopened, code, hcode, heq⟩ | ⟨hnone, heq⟩
  · obtain ⟨-, n, -, -, -, hcount⟩ := ClassFile.exists_span_of_code? h hm hcode
    exact .inl ⟨hopened, code, n, hcode, hcount, heq ▸ hsites⟩
  · exact .inr ⟨hnone, (Except.ok.inj (heq.symm.trans hsites)).symm⟩

/-- The sites of a method that is opened are the places where its code calls it. -/
theorem mem_openedSites_iff (h : ClassFile.read file = .ok c) (hm : m ∈ c.methods)
    (hsites : openedSites c m after = .ok pcs) {pc : Nat} :
    pc ∈ pcs ↔
      m.isOpenedBy after = true ∧ ∃ code, c.code? m = some code ∧ CallsItself c m code pc := by
  rcases sites_cases h hm hsites with ⟨hopened, code, n, hcode, hcount, hsome⟩ | ⟨hnone, rfl⟩
  · simp only [mem_sites_iff hcount hsome, hopened, hcode, true_and, Option.some.injEq,
      exists_eq_left']
  · refine ⟨nofun, ?_⟩
    rintro ⟨hopened, code, hcode, -⟩
    rw [hnone hopened] at hcode
    cases hcode

/-- At the sites the code calls the method itself. -/
theorem callsItself_of_mem (h : ClassFile.read file = .ok c) (hm : m ∈ c.methods)
    (hsites : openedSites c m after = .ok pcs) {code : List UInt8} (hcode : c.code? m = some code) :
    ∀ pc ∈ pcs, CallsItself c m code pc := by
  intro pc hpc
  obtain ⟨-, _, hsome, hcalls⟩ := (mem_openedSites_iff h hm hsites).1 hpc
  rw [hcode, Option.some.injEq] at hsome
  rwa [hsome]

/-- The sites of a method that is opened are in ascending order. -/
theorem pairwise_openedSites (h : ClassFile.read file = .ok c) (hm : m ∈ c.methods)
    (hsites : openedSites c m after = .ok pcs) : pcs.Pairwise (· < ·) := by
  rcases sites_cases h hm hsites with ⟨-, code, n, -, hcount, hsome⟩ | ⟨-, rfl⟩
  · exact pairwise_sites hcount hsome
  · exact .nil

/-- The code of a method in which the calls to itself were rewritten if it is opened. -/
theorem fits_of_answerFor (h : ClassFile.read file = .ok c) (hm : m ∈ c.methods)
    {answer : Flags × Option (List UInt8)} (ha : c.answerFor m after = .ok answer) :
    m.Fits answer.2 := by
  refine ⟨fills_of_answerFor h hm ha, ?_⟩
  obtain ⟨pcs, hsites, rfl⟩ := ClassFile.answerFor_eq_ok_iff.1 ha
  intro bytes hbytes
  obtain ⟨code, hcode, rfl⟩ := Option.map_eq_some_iff.1 hbytes
  obtain ⟨-, n, -, -, -, hcount⟩ := ClassFile.exists_span_of_code? h hm hcode
  exact ⟨n, count_rewrite hcount (callsItself_of_mem h hm hsites hcode)⟩

/-- **The answers fit the class**: the rewritten file reads as the class with the answers. -/
theorem fits_of_answersFor (h : ClassFile.read file = .ok c) {word : Part → Flags}
    {a : ClassFile.Answers} (ha : c.answersFor word = .ok a) : c.Fits a := by
  have hfills := fills_of_answersFor h ha
  obtain ⟨methods, hmethods, rfl⟩ := ClassFile.answersFor_eq_ok_iff.1 ha
  refine ⟨hfills.fields, ?_, hfills.innerClasses⟩
  exact forall₂_of_mapM hmethods fun m hm answer => fits_of_answerFor h hm

end Opened

end ClassAccess
