import ClassAccess.Proofs.Widening.FlagWords

/-!
# When applying a rule set fails

A rule set cannot be applied to a byte string that is no class file, and it cannot be applied to a
class with a method that it opens and whose code has a call, bound beforehand, that leads to no
method. It can be applied to everything else: rules about one class always fit together, and code
that was read divides into instructions when it is walked again.

## Main definitions

* `DanglingCall`, `FirstDanglingCall` — a call that leads to no method, and the first one in some
  code.
* `Opens` — the rules of a list open a method.
* `StuckAt` — where the first such call of a method that is opened stands.

## Main results

* `SelfCall.sites_eq_error_iff` — the sites cannot be told because of the first dangling call.
* `isOpenedBy_verdict_iff` — which methods are opened, read off the list of rules.
* `RuleSet.failures_of_widen` — all failures, and what each of them says.
-/

set_option autoImplicit false

namespace ClassAccess

/-! ## Calls that lead nowhere -/

/-- At `pc`, some code has a call that is bound beforehand and does not lead to a method: following
its reference breaks off at `slot`. -/
structure DanglingCall (pool : ConstantPool) (code : List UInt8) (pc : Nat) (slot : UInt16)
    (kind : ConstantKind) : Prop where
  /-- An instruction starts there. -/
  boundary : Code.Boundary code pc
  /-- It is a call that is bound beforehand. -/
  opcode : code[pc]? = some Instruction.invokeSpecial
  /-- The reference in the word behind its opcode breaks off. -/
  operand : ∃ index, (Span.word (pc + 1)).of code = wordBytes index ∧ pool.BreaksAt index slot kind

/-- No call before the one at `pc` is dangling, and that one is. -/
structure FirstDanglingCall (pool : ConstantPool) (code : List UInt8) (pc : Nat) (slot : UInt16)
    (kind : ConstantKind) : Prop where
  /-- The call at `pc` is dangling. -/
  call : DanglingCall pool code pc slot kind
  /-- No earlier one is. -/
  first : ∀ pc' < pc, ∀ slot' kind', ¬DanglingCall pool code pc' slot' kind'

/-- A dangling call is an instruction of its code. -/
theorem DanglingCall.holds {pool : ConstantPool} {code : List UInt8} {pc : Nat} {slot : UInt16}
    {kind : ConstantKind} (h : DanglingCall pool code pc slot kind) :
    Code.Holds code ⟨pc, Instruction.invokeSpecial, 3⟩ := by
  obtain ⟨index, hword, -⟩ := h.operand
  exact h.boundary.holds_invokeSpecial h.opcode hword

/-- Among dangling calls there is a first one. -/
theorem exists_firstDanglingCall_iff {pool : ConstantPool} {code : List UInt8} :
    (∃ pc slot kind, FirstDanglingCall pool code pc slot kind) ↔
      ∃ pc slot kind, DanglingCall pool code pc slot kind := by
  constructor
  · rintro ⟨pc, slot, kind, h⟩
    exact ⟨pc, slot, kind, h.call⟩
  · rintro ⟨pc, h⟩
    -- strong induction: either the call at `pc` is the first one, or there is an earlier one
    induction pc using Nat.strongRecOn with
    | _ pc ih =>
      by_cases hearlier : ∃ pc' < pc, ∃ slot kind, DanglingCall pool code pc' slot kind
      · obtain ⟨pc', hlt, h'⟩ := hearlier
        exact ih pc' hlt h'
      · obtain ⟨slot, kind, hcall⟩ := h
        refine ⟨pc, slot, kind, hcall, fun pc' hlt slot' kind' h' => ?_⟩
        exact hearlier ⟨pc', hlt, slot', kind', h'⟩

namespace SelfCall

variable {pool : ConstantPool} {callee : MethodRef} {code : List UInt8} {e : ClassFileError}

/-- Whether an instruction is a site cannot be told if it is a dangling call. -/
theorem isSite_eq_error_iff {i : Instruction} (hi : Code.Holds code i) :
    isSite pool callee code i = .error e ↔
      ∃ slot kind, DanglingCall pool code i.pc slot kind ∧ e = .badConstantIndex slot kind := by
  rw [isSite]
  by_cases hop : i.opcode = Instruction.invokeSpecial
  · obtain ⟨index, hindex, hword⟩ := hi.exists_operand hop
    rw [if_neg (not_not_intro hop), hindex]
    constructor
    · intro h
      rcases bind_eq_error_iff.1 h with h | ⟨found, -, h⟩
      · obtain ⟨slot, kind, hbreaks, rfl⟩ := ConstantPool.methodRef_eq_error_iff.1 h
        exact ⟨slot, kind, ⟨hi.boundary, hop ▸ hi.opcode, index, hword, hbreaks⟩, rfl⟩
      · cases h
    · rintro ⟨slot, kind, hcall, rfl⟩
      obtain ⟨index', hword', hbreaks⟩ := hcall.operand
      cases wordBytes_injective (hword.symm.trans hword')
      exact bind_eq_error_iff.2 (.inl (ConstantPool.methodRef_eq_error_iff.2 ⟨_, _, hbreaks, rfl⟩))
  · rw [if_pos hop]
    constructor
    · intro h
      cases h
    · rintro ⟨slot, kind, hcall, -⟩
      have hopcode : some i.opcode = some Instruction.invokeSpecial :=
        hi.opcode.symm.trans hcall.opcode
      exact absurd (Option.some.inj hopcode) hop

/-- The sites among instructions cannot be told if this cannot be told of one of them. -/
theorem sitesAmong_eq_error_iff {is : List Instruction} :
    sitesAmong pool callee code is = .error e ↔ is.mapM (isSite pool callee code) = .error e := by
  induction is with
  | nil => exact ⟨nofun, nofun⟩
  | cons i is ih =>
    rw [sitesAmong, List.mapM_cons, bind_eq_error_iff, bind_eq_error_iff]
    have hrest : ∀ here : Bool,
        ((do let later ← sitesAmong pool callee code is
             return if here then i.pc :: later else later) = (.error e : Except _ (List Nat))) ↔
          ((do let later ← is.mapM (isSite pool callee code)
               return here :: later) = (.error e : Except _ (List Bool))) := by
      intro here
      rw [bind_eq_error_iff, bind_eq_error_iff, ih]
      simp only [pure, Except.pure, reduceCtorEq, and_false, exists_false, or_false]
    simp only [hrest]

/-- **The sites of good code cannot be told because of its first dangling call**, and for no other
reason.

**Proof sketch.** The instructions are looked at in their order, which is that of their places, and
one of them cannot be told to be a site or not exactly if it is a dangling call. -/
theorem sites_eq_error_iff {owner name descriptor : String} {is : List Instruction}
    (hrow : Code.Row 0 code is) :
    sites pool owner name descriptor code = .error e ↔
      ∃ pc slot kind, FirstDanglingCall pool code pc slot kind ∧
        e = .badConstantIndex slot kind := by
  have hwalk : Code.walk code = ⟨is, none⟩ := hrow.walkFrom_eq
  have hsites : sites pool owner name descriptor code =
      sitesAmong pool ⟨owner, name, descriptor, false⟩ code is := by
    simp only [sites, hwalk]
    cases sitesAmong pool ⟨owner, name, descriptor, false⟩ code is <;> rfl
  rw [hsites, sitesAmong_eq_error_iff, mapM_eq_error_iff]
  constructor
  · rintro ⟨before, i, after, rfl, hbefore, hi⟩
    have hmem : i ∈ before ++ i :: after := List.mem_append_right _ List.mem_cons_self
    obtain ⟨slot, kind, hcall, rfl⟩ := (isSite_eq_error_iff (hrow.mem_iff.1 hmem)).1 hi
    refine ⟨i.pc, slot, kind, ⟨hcall, fun pc' hlt slot' kind' hcall' => ?_⟩, rfl⟩
    -- an earlier dangling call would be among the instructions before this one
    have hmem' := hrow.mem_iff.2 hcall'.holds
    obtain ⟨-, hafter, -⟩ := List.pairwise_append.1 hrow.pairwise
    rcases List.mem_append.1 hmem' with hb | ha
    · obtain ⟨b, hb'⟩ := hbefore _ hb
      rw [(isSite_eq_error_iff (hrow.mem_iff.1 hmem')).2 ⟨slot', kind', hcall', rfl⟩] at hb'
      cases hb'
    · rcases List.mem_cons.1 ha with heq | ha
      · have : pc' = i.pc := congrArg Instruction.pc heq
        omega
      · have : i.pc < pc' := List.rel_of_pairwise_cons hafter ha
        omega
  · rintro ⟨pc, slot, kind, ⟨hcall, hfirst⟩, rfl⟩
    obtain ⟨before, after, rfl⟩ := List.append_of_mem (hrow.mem_iff.2 hcall.holds)
    refine ⟨before, _, after, rfl, fun j hj => ?_, ?_⟩
    · have hholds := hrow.mem_iff.1 (List.mem_append_left _ hj)
      cases hsite : isSite pool ⟨owner, name, descriptor, false⟩ code j with
      | ok b => exact ⟨b, rfl⟩
      | error e' =>
        obtain ⟨slot', kind', hcall', -⟩ := (isSite_eq_error_iff hholds).1 hsite
        have hlt : j.pc < pc :=
          (List.pairwise_append.1 hrow.pairwise).2.2 j hj _ List.mem_cons_self
        exact absurd hcall' (hfirst j.pc hlt slot' kind')
    · exact (isSite_eq_error_iff hcall.holds).2 ⟨slot, kind, hcall, rfl⟩

end SelfCall

/-! ## Methods that are opened -/

/-- A word that is raised to a wider level is no longer private. -/
theorem Request.not_private_of_lt {q : Request} {w : Flags} (h : Level.ofFlags w < q.level) :
    (q.grant w).flags.meets Flags.privateBit = false := by
  have hlevel : q.level ≠ .ownClass := by
    rintro heq
    rw [heq] at h
    exact Nat.not_lt_zero _ h
  have hflag : q.level.flag &&& Flags.visibilityMask = q.level.flag ∧
      q.level.flag.meets Flags.privateBit = false := by
    cases hq : q.level with
    | ownClass => exact absurd hq hlevel
    | ownPackage | subclasses | everywhere => decide
  have hvisible : (q.grant w).flags.visible = q.level.flag.visible := by
    rw [visible_grant, raise_of_lt h, Flags.visible, Flags.exchange_and hflag.1, Flags.visible,
      hflag.1]
  rw [Flags.meets_eq_of_visible (by decide) hvisible, hflag.2]

/-- A word that is not raised is as private as before. -/
theorem Request.private_of_not_lt {q : Request} {w : Flags} (h : ¬Level.ofFlags w < q.level) :
    (q.grant w).flags.meets Flags.privateBit = w.meets Flags.privateBit := by
  apply Flags.meets_eq_of_visible (by decide)
  rw [visible_grant, raise_of_not_lt h]

/-- The rules of a list open the method `m` of the class `c`: it initialises neither the class nor
an object, it is private, and what is asked for it is a level above its own. -/
structure Opens (rules : List Rule) (c : ClassFile) (m : Method) : Prop where
  /-- It does not initialise an object. -/
  notConstructor : m.name ≠ Method.constructorName
  /-- It does not initialise the class. -/
  notInitializer : m.name ≠ Method.initializerName
  /-- It is private. -/
  isPrivate : m.flags.meets Flags.privateBit = true
  /-- The rules for it and for all methods ask for a wider level. -/
  wider : ∃ q, Request.forMethod rules c.name m.name m.descriptor = some q ∧
    Level.ofFlags m.flags < q.level

/-- **A method is opened by its verdict exactly if the rules open it.** -/
theorem isOpenedBy_verdict_iff {rules : List Rule} {c : ClassFile} {m : Method} :
    m.isOpenedBy (verdict rules c (.method m)).flags = true ↔ Opens rules c m := by
  have hopened : ∀ after, m.isOpenedBy after = true ↔
      m.name ≠ Method.constructorName ∧ m.name ≠ Method.initializerName ∧
        m.flags.meets Flags.privateBit = true ∧ after.meets Flags.privateBit = false := by
    intro after
    simp [Method.isOpenedBy, Widening.isOpened, and_assoc]
  rw [hopened]
  -- for a method of another name the verdict is what is asked for it
  have habout : m.name ≠ Method.initializerName →
      Request.about rules c (.method m) = Request.forMethod rules c.name m.name m.descriptor :=
    fun hinit => if_neg hinit
  have hgrant : ∀ q, m.name ≠ Method.constructorName →
      Request.about rules c (.method m) = some q →
      verdict rules c (.method m) = q.grant m.flags := by
    intro q hctor hq
    rw [verdict, hq, Part.isConstructor, decide_eq_false hctor]
    rfl
  constructor
  · rintro ⟨hctor, hinit, hprivate, hafter⟩
    refine ⟨hctor, hinit, hprivate, ?_⟩
    rw [← habout hinit]
    cases hq : Request.about rules c (.method m) with
    | none =>
      rw [verdict_of_unasked hq, Part.flags, hprivate] at hafter
      cases hafter
    | some q =>
      refine ⟨q, rfl, ?_⟩
      by_contra hlt
      rw [hgrant q hctor hq, Request.private_of_not_lt hlt, hprivate] at hafter
      cases hafter
  · rintro ⟨hctor, hinit, hprivate, q, hq, hlt⟩
    refine ⟨hctor, hinit, hprivate, ?_⟩
    rw [hgrant q hctor ((habout hinit).trans hq)]
    exact Request.not_private_of_lt hlt

/-! ## Failures -/

/-- The rules of a list open the method `m` of the class `c`, and the first dangling call in its
code is the one at `pc`. -/
structure StuckAt (rules : List Rule) (c : ClassFile) (m : Method) (pc : Nat) (slot : UInt16)
    (kind : ConstantKind) : Prop where
  /-- The method is opened. -/
  opens : Opens rules c m
  /-- It has code, and a first dangling call in it. -/
  call : ∃ code, c.code? m = some code ∧ FirstDanglingCall c.pool code pc slot kind

section Failures

variable {s : RuleSet} {file : List UInt8} {c : ClassFile}

/-- The sites of a method cannot be told exactly if it is stuck. -/
theorem openedSites_eq_error_iff (h : ClassFile.read file = .ok c) {rules : List Rule} {m : Method}
    (hm : m ∈ c.methods) {e : ClassFileError} :
    openedSites c m (verdict rules c (.method m)).flags = .error e ↔
      ∃ pc slot kind, StuckAt rules c m pc slot kind ∧ e = .badConstantIndex slot kind := by
  rcases openedSites_cases c m (verdict rules c (.method m)).flags with
    ⟨hopened, code, hcode, heq⟩ | ⟨hnone, heq⟩
  · obtain ⟨-, n, -, -, -, hcount⟩ := ClassFile.exists_span_of_code? h hm hcode
    obtain ⟨is, hrow, -⟩ := Code.exists_row_of_count hcount
    rw [heq, SelfCall.sites_eq_error_iff hrow]
    constructor
    · rintro ⟨pc, slot, kind, hcall, rfl⟩
      exact ⟨pc, slot, kind, ⟨isOpenedBy_verdict_iff.1 hopened, code, hcode, hcall⟩, rfl⟩
    · rintro ⟨pc, slot, kind, ⟨-, code', hcode', hcall⟩, rfl⟩
      cases hcode.symm.trans hcode'
      exact ⟨pc, slot, kind, hcall, rfl⟩
  · rw [heq]
    refine ⟨nofun, ?_⟩
    rintro ⟨pc, slot, kind, ⟨hopens, code, hcode, -⟩, -⟩
    rw [hnone (isOpenedBy_verdict_iff.2 hopens)] at hcode
    cases hcode

/-- There is no answer about a method that is stuck. -/
theorem methodAnswer_eq_error_iff (h : ClassFile.read file = .ok c) {rules : List Rule} {m : Method}
    (hm : m ∈ c.methods) {err : WideningError} :
    methodAnswer rules c m = .error err ↔
      ∃ pc slot kind, StuckAt rules c m pc slot kind ∧
        err = ⟨some c.name, .classFile (.badConstantIndex slot kind)⟩ := by
  rw [methodAnswer, ClassFile.answerFor_eq_error_iff]
  simp only [openedSites_eq_error_iff h hm]
  constructor
  · rintro ⟨_, ⟨pc, slot, kind, hstuck, rfl⟩, rfl⟩
    exact ⟨pc, slot, kind, hstuck, rfl⟩
  · rintro ⟨pc, slot, kind, hstuck, rfl⟩
    exact ⟨_, ⟨pc, slot, kind, hstuck, rfl⟩, rfl⟩

/-- There is an answer about every method that is not stuck. -/
theorem exists_methodAnswer_iff (h : ClassFile.read file = .ok c) {rules : List Rule} {m : Method}
    (hm : m ∈ c.methods) :
    (∃ answer, methodAnswer rules c m = .ok answer) ↔
      ∀ pc slot kind, ¬StuckAt rules c m pc slot kind := by
  constructor
  · rintro ⟨answer, hanswer⟩ pc slot kind hstuck
    rw [(methodAnswer_eq_error_iff h hm).2 ⟨pc, slot, kind, hstuck, rfl⟩] at hanswer
    cases hanswer
  · intro hnone
    cases hanswer : methodAnswer rules c m with
    | ok answer => exact ⟨answer, rfl⟩
    | error err =>
      obtain ⟨pc, slot, kind, hstuck, -⟩ := (methodAnswer_eq_error_iff h hm).1 hanswer
      exact absurd hstuck (hnone pc slot kind)

/-- There are no answers about a class because of its first method that is stuck. -/
theorem answers_eq_error_iff (h : ClassFile.read file = .ok c) {err : WideningError} :
    s.answers c = .error err ↔
      ∃ before m after, c.methods = before ++ m :: after ∧
        (∀ m' ∈ before, ∀ pc slot kind, ¬StuckAt s.rules.toList c m' pc slot kind) ∧
        ∃ pc slot kind, StuckAt s.rules.toList c m pc slot kind ∧
          err = ⟨some c.name, .classFile (.badConstantIndex slot kind)⟩ := by
  have hmapM : s.answers c = .error err ↔
      c.methods.mapM (methodAnswer s.rules.toList c) = .error err := by
    rw [RuleSet.answers, ClassFile.answersFor, bind_eq_error_iff]
    simp only [pure, Except.pure, reduceCtorEq, and_false, exists_false, or_false]
    rfl
  rw [hmapM, mapM_eq_error_iff]
  refine exists_congr fun before => exists_congr fun m => exists_congr fun after =>
    and_congr_right fun hmethods => ?_
  have hbefore : ∀ m' ∈ before, m' ∈ c.methods :=
    fun m' hm' => hmethods ▸ List.mem_append_left _ hm'
  have hm : m ∈ c.methods := hmethods ▸ List.mem_append_right _ List.mem_cons_self
  exact and_congr (forall₂_congr fun m' hm' => exists_methodAnswer_iff h (hbefore m' hm'))
    (methodAnswer_eq_error_iff h hm)

end Failures

namespace RuleSet

variable (s : RuleSet) (file : List UInt8)

/-- A rule set cannot be applied to a class exactly if there are no answers about it. -/
theorem widen_eq_error_iff_answers {c : ClassFile} (h : ClassFile.read file = .ok c)
    {err : WideningError} : s.widen file = .error err ↔ s.answers c = .error err := by
  have hwiden := widen_of_read (s := s) h
  cases ha : s.answers c with
  | error e =>
    rw [ha] at hwiden
    rw [hwiden, Except.error.injEq, Except.error.injEq]
  | ok a =>
    rw [ha] at hwiden
    obtain ⟨r, hr, -⟩ := hwiden
    rw [hr]
    exact ⟨nofun, nofun⟩

/-- **A rule set cannot be applied in two cases only.** Either the file is no class file, and this
is the error; or some method that the rules open has a dangling call. Then the error is where the
reference of the first such call of the first such method breaks off, together with the name of the
class.

**Proof sketch.** On a class file, what is written are the answers, and only answers about methods
can be missing. Rules for one member and for all members of its kind fit together, and the code of a
method is what was divided into instructions when it was read; so an answer is missing only where
the reference of a call cannot be followed. -/
theorem failures_of_widen :
    ((∃ err, s.widen file = .error err) ↔
      (∃ e, ClassFile.read file = .error e) ∨
        ∃ c, ClassFile.read file = .ok c ∧ ∃ m ∈ c.methods, Opens s.rules.toList c m ∧
          ∃ code, c.code? m = some code ∧ ∃ pc slot kind, DanglingCall c.pool code pc slot kind) ∧
    (∀ e, ClassFile.read file = .error e → s.widen file = .error ⟨none, .classFile e⟩) ∧
    (∀ c, ClassFile.read file = .ok c → ∀ err, s.widen file = .error err ↔
      ∃ before m after, c.methods = before ++ m :: after ∧
        (∀ m' ∈ before, ∀ pc slot kind, ¬StuckAt s.rules.toList c m' pc slot kind) ∧
        ∃ pc slot kind, StuckAt s.rules.toList c m pc slot kind ∧
          err = ⟨some c.name, .classFile (.badConstantIndex slot kind)⟩) := by
  have hread :
      ∀ e, ClassFile.read file = .error e → s.widen file = .error ⟨none, .classFile e⟩ := by
    intro e he
    rw [widen, he]
  have hclass : ∀ c, ClassFile.read file = .ok c → ∀ err, s.widen file = .error err ↔ _ :=
    fun c h err => (s.widen_eq_error_iff_answers file h).trans (answers_eq_error_iff h)
  refine ⟨⟨?_, ?_⟩, hread, hclass⟩
  · rintro ⟨err, herr⟩
    cases h : ClassFile.read file with
    | error e => exact .inl ⟨e, rfl⟩
    | ok c =>
      obtain ⟨before, m, after, hmethods, -, pc, slot, kind, ⟨hopens, code, hcode, hcall⟩, -⟩ :=
        (hclass c h err).1 herr
      have hm : m ∈ c.methods := hmethods ▸ List.mem_append_right _ List.mem_cons_self
      exact .inr ⟨c, rfl, m, hm, hopens, code, hcode, pc, slot, kind, hcall.call⟩
  · rintro (⟨e, he⟩ | ⟨c, h, m, hm, hopens, code, hcode, hcall⟩)
    · exact ⟨_, hread e he⟩
    · obtain ⟨pc, slot, kind, hfirst⟩ := exists_firstDanglingCall_iff.2 hcall
      have hstuck : StuckAt s.rules.toList c m pc slot kind := ⟨hopens, code, hcode, hfirst⟩
      have hanswer := (methodAnswer_eq_error_iff h hm).2 ⟨pc, slot, kind, hstuck, rfl⟩
      -- the answer about this method is missing, so that there are no answers
      cases ha : s.answers c with
      | error err => exact ⟨err, (s.widen_eq_error_iff_answers file h).2 ha⟩
      | ok a =>
        obtain ⟨methods, hmethods, -⟩ := answers_eq_ok_iff.1 ha
        obtain ⟨answer, hzip⟩ := exists_mem_zip (mapM_eq_ok_iff.1 hmethods).length_eq.symm hm
        have hok := (List.forall₂_iff_zip.1 (mapM_eq_ok_iff.1 hmethods)).2 hzip
        rw [hanswer] at hok
        cases hok

end RuleSet

/-- The small class cannot be worked on if the call in its method refers to the class itself. -/
example : Sample.rules.widen (patched Sample.file [⟨107, [2]⟩]) =
    .error ⟨some "A", .classFile (.badConstantIndex 2 .methodRef)⟩ := by
  decide +kernel

end ClassAccess
