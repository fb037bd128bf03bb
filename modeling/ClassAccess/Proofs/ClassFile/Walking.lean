import ClassAccess.Proofs.ClassFile.WordArithmetic

/-!
# Walking over code is exact

Code that is a row of well-formed instructions is walked over to its end, and the walk tells where
each instruction stands. Any other code has a longest such row in front; the walk tells that one and
what is wrong behind it. The walk is also taken one request at a time, as by a reader that asks for
the next instruction as long as it likes: once the code has ended or a fault was told, there is no
more answer.

## Main definitions

* `Code.AreAt` — byte strings that are instructions, each placed where the last one ends.
* `Code.placed` — where they stand, with their opcodes and lengths.
* `Code.IsRowOf`, `Code.StopsAt` — good code cut into its instructions, and bad code cut at its
  fault.
* `Code.Walker` — a walk under way, with `Walker.next` for one request and `Walker.answer` for many.

## Main results

* `Code.row_iff` — rows by lengths and rows by forms are the same.
* `Code.isRowOf_or_stopsAt` — every code is good or stops somewhere.
* `Code.AreAt.flatten_inj` — there is one way to cut code into instructions.
* `Code.Walker.answer_of_areAt` — the answers to all requests.
* `Code.walk_exactly` — the walk, the count and the answers for all code.
-/

set_option autoImplicit false

namespace ClassAccess

namespace Code

open Instruction

/-! ## Rows of byte strings -/

/-- From `pc` on, the byte strings are instructions, each placed where the one in front of it
ends. -/
inductive AreAt : (pc : Nat) → (parts : List (List UInt8)) → Prop
  /-- No byte string has to be placed. -/
  | nil (pc : Nat) : AreAt pc []
  /-- The first one is at `pc`, and the others follow behind its end. -/
  | cons {pc : Nat} {body : List UInt8} {parts : List (List UInt8)}
      (head : IsAt pc body) (tail : AreAt (pc + body.length) parts) : AreAt pc (body :: parts)

/-- Where byte strings stand that are placed one behind the other from `pc` on, the opcode that each
starts with, and how long it is. -/
def placed (pc : Nat) : (parts : List (List UInt8)) → List Instruction
  | [] => []
  | body :: parts => ⟨pc, body.headD 0, body.length⟩ :: placed (pc + body.length) parts

/-- The code is a row of well-formed instructions, which are the parts. -/
structure IsRowOf (code : List UInt8) (parts : List (List UInt8)) : Prop where
  /-- The parts make up the code. -/
  code_eq : code = parts.flatten
  /-- They are instructions from the start of the code on. -/
  areAt : AreAt 0 parts

/-- The code is such a row in front of bytes where no instruction starts, for the reason `e`. -/
structure StopsAt (code : List UInt8) (parts : List (List UInt8)) (bad : List UInt8)
    (e : ClassFileError) : Prop where
  /-- The parts and the bad bytes make up the code. -/
  code_eq : code = parts.flatten ++ bad
  /-- The parts are instructions from the start of the code on. -/
  areAt : AreAt 0 parts
  /-- There are bad bytes. -/
  bad_ne_nil : bad ≠ []
  /-- No instruction starts with them. -/
  lengthAt_bad : lengthAt parts.flatten.length bad = .error e

/-- **There is one way to cut code into instructions.** -/
theorem AreAt.flatten_inj {pc : Nat} {parts parts' : List (List UInt8)} (h : AreAt pc parts)
    (h' : AreAt pc parts') (heq : parts.flatten = parts'.flatten) : parts = parts' := by
  induction h generalizing parts' with
  | nil =>
    cases h' with
    | nil => rfl
    | cons head _ =>
      obtain ⟨opcode, operands, rfl⟩ := head.exists_cons
      simp at heq
  | cons head _ ih =>
    cases h' with
    | nil =>
      obtain ⟨opcode, operands, rfl⟩ := head.exists_cons
      simp at heq
    | cons head' tail' =>
      rw [List.flatten_cons, List.flatten_cons] at heq
      obtain ⟨rfl, hrest⟩ := head.append_inj head' heq
      rw [ih tail' hrest]

/-- **A row of instructions by their lengths** is a row of byte strings that are instructions. -/
theorem row_iff {pc : Nat} {ahead : List UInt8} {is : List Instruction} :
    Row pc ahead is ↔ ∃ parts, AreAt pc parts ∧ ahead = parts.flatten ∧ is = placed pc parts := by
  constructor
  · intro h
    induction h with
    | nil pc => exact ⟨[], .nil pc, rfl, rfl⟩
    | cons head _ ih =>
      obtain ⟨parts, hparts, hbehind, rfl⟩ := ih
      obtain ⟨body, rest, heq, hbody, rfl⟩ := lengthAt_eq_ok_iff.1 head
      rw [heq, List.drop_left] at hbehind
      subst hbehind
      obtain ⟨opcode, operands, rfl⟩ := hbody.exists_cons
      obtain ⟨rfl, -⟩ := List.cons.inj heq
      exact ⟨_ :: parts, .cons hbody hparts, heq, rfl⟩
  · rintro ⟨parts, h, rfl, rfl⟩
    induction h with
    | nil pc => exact .nil pc
    | @cons pc body parts head _ ih =>
      have hlength := head.lengthAt_append parts.flatten
      obtain ⟨opcode, operands, rfl⟩ := head.exists_cons
      have hbehind : (opcode :: (operands ++ parts.flatten)).drop (opcode :: operands).length =
          parts.flatten := List.drop_left
      exact .cons hlength (hbehind.symm ▸ ih)

/-- **Every byte string** is a row of instructions in front of nothing or of bytes where none
starts.

**Proof sketch.** Induction on the length of what lies ahead, one instruction at a time. -/
theorem exists_areAt (pc : Nat) (ahead : List UInt8) :
    ∃ parts rest, ahead = parts.flatten ++ rest ∧ AreAt pc parts ∧
      (rest = [] ∨ rest ≠ [] ∧ ∃ e, lengthAt (pc + parts.flatten.length) rest = .error e) := by
  by_cases hahead : ahead = []
  · exact ⟨[], [], hahead, .nil pc, .inl rfl⟩
  · cases hn : lengthAt pc ahead with
    | error e => exact ⟨[], ahead, rfl, .nil pc, .inr ⟨hahead, e, hn⟩⟩
    | ok n =>
      have hpos := lengthAt_pos hn
      obtain ⟨body, tail, rfl, hbody, rfl⟩ := lengthAt_eq_ok_iff.1 hn
      obtain ⟨parts, rest, rfl, hparts, hrest⟩ := exists_areAt (pc + body.length) tail
      refine ⟨body :: parts, rest, by simp, .cons hbody hparts, ?_⟩
      rwa [List.flatten_cons, List.length_append, ← Nat.add_assoc]
termination_by ahead.length
decreasing_by
  simp_all only [List.length_append]
  omega

/-- Code is a row of instructions, or it stops being one somewhere. -/
theorem isRowOf_or_stopsAt (code : List UInt8) :
    (∃ parts, IsRowOf code parts) ∨ ∃ parts bad e, StopsAt code parts bad e := by
  obtain ⟨parts, rest, hcode, hparts, rfl | ⟨hrest, e, he⟩⟩ := exists_areAt 0 code
  · exact .inl ⟨parts, by rwa [List.append_nil] at hcode, hparts⟩
  · exact .inr ⟨parts, rest, e, hcode, hparts, hrest, by rwa [Nat.zero_add] at he⟩

/-! ## The whole walk -/

/-- The walk over instructions and what lies behind them. -/
theorem AreAt.walkFrom_append {pc : Nat} {parts : List (List UInt8)} (h : AreAt pc parts)
    (rest : List UInt8) :
    walkFrom pc 0 (parts.flatten ++ rest) =
      { walkFrom (pc + parts.flatten.length) 0 rest with
        instructions := placed pc parts ++
          (walkFrom (pc + parts.flatten.length) 0 rest).instructions } := by
  induction h with
  | nil => rfl
  | @cons pc body parts head _ ih =>
    have hlength := head.lengthAt_append (parts.flatten ++ rest)
    obtain ⟨opcode, operands, rfl⟩ := head.exists_cons
    rw [List.cons_append] at hlength
    have hbehind :
        (opcode :: (operands ++ (parts.flatten ++ rest))).drop (opcode :: operands).length =
          parts.flatten ++ rest := List.drop_left
    rw [List.flatten_cons, List.append_assoc, List.cons_append, walkFrom_of_ok hlength, hbehind, ih,
      List.length_append, Nat.add_assoc]
    rfl

/-- The walk stops where no instruction starts. -/
theorem walkFrom_of_error {pc : Nat} {bad : List UInt8} {e : ClassFileError} (hbad : bad ≠ [])
    (h : lengthAt pc bad = .error e) : walkFrom pc 0 bad = ⟨[], some e⟩ := by
  obtain ⟨b, rest, rfl⟩ := List.exists_cons_of_ne_nil hbad
  rw [walkFrom, h]

/-- The walk over good code tells every instruction. -/
theorem IsRowOf.walk_eq {code : List UInt8} {parts : List (List UInt8)} (h : IsRowOf code parts) :
    walk code = ⟨placed 0 parts, none⟩ :=
  (row_iff.2 ⟨parts, h.areAt, h.code_eq, rfl⟩).walkFrom_eq

/-- The walk over bad code tells the instructions in front of the fault, and the fault. -/
theorem StopsAt.walk_eq {code : List UInt8} {parts : List (List UInt8)} {bad : List UInt8}
    {e : ClassFileError} (h : StopsAt code parts bad e) : walk code = ⟨placed 0 parts, some e⟩ := by
  have hwalk := h.areAt.walkFrom_append bad
  rw [← h.code_eq, Nat.zero_add, walkFrom_of_error h.bad_ne_nil h.lengthAt_bad] at hwalk
  rw [walk, hwalk, List.append_nil]

/-- There are as many placed instructions as byte strings. -/
theorem length_placed (pc : Nat) (parts : List (List UInt8)) :
    (placed pc parts).length = parts.length := by
  induction parts generalizing pc with
  | nil => rfl
  | cons body parts ih => rw [placed, List.length_cons, ih, List.length_cons]

/-- Good code is counted. -/
theorem IsRowOf.count_eq {code : List UInt8} {parts : List (List UInt8)} (h : IsRowOf code parts) :
    count code = .ok parts.length := by
  simp only [count, h.walk_eq, length_placed]

/-- The count of bad code is its fault. -/
theorem StopsAt.count_eq {code : List UInt8} {parts : List (List UInt8)} {bad : List UInt8}
    {e : ClassFileError} (h : StopsAt code parts bad e) : count code = .error e := by
  simp only [count, h.walk_eq]

/-- **What is counted** is good code, and its instructions are. -/
theorem count_eq_ok_iff {code : List UInt8} {n : Nat} :
    count code = .ok n ↔ ∃ parts, IsRowOf code parts ∧ parts.length = n := by
  constructor
  · intro h
    rcases isRowOf_or_stopsAt code with ⟨parts, hrow⟩ | ⟨parts, bad, e, hstop⟩
    · rw [hrow.count_eq] at h
      exact ⟨parts, hrow, Except.ok.inj h⟩
    · rw [hstop.count_eq] at h
      cases h
  · rintro ⟨parts, hrow, rfl⟩
    exact hrow.count_eq

/-! ## One request at a time -/

/-- A walk over code that is under way. -/
structure Walker where
  /-- Where the next instruction starts. -/
  pc : Nat
  /-- Whether a fault has been told. -/
  failed : Bool
deriving DecidableEq, Repr

namespace Walker

/-- A walk that begins. -/
def start : Walker := ⟨0, false⟩

/-- The answer to a request for the next instruction, if there is one, and the walk after it. -/
def next (code : List UInt8) (w : Walker) : Option (Except ClassFileError Instruction) × Walker :=
  if w.failed then (none, w)
  else
    match code[w.pc]? with
    | none => (none, w)
    | some opcode =>
      match lengthAt w.pc (code.drop w.pc) with
      | .ok length => (some (.ok ⟨w.pc, opcode, length⟩), { w with pc := w.pc + length })
      | .error e => (some (.error e), { w with failed := true })

/-- The answer to a request that others came before, as many as the number says. -/
def answer (code : List UInt8) (w : Walker) : Nat → Option (Except ClassFileError Instruction)
  | 0 => (w.next code).1
  | k + 1 => (w.next code).2.answer code k

variable {code : List UInt8} {pc : Nat}

/-- A walk that gives no answer and stays as it is never gives one again. -/
theorem answer_of_stopped {w : Walker} (h : w.next code = (none, w)) (k : Nat) :
    w.answer code k = none := by
  induction k with
  | zero => rw [answer, h]
  | succ k ih => rw [answer, h, ih]

/-- After a fault there is no more answer. -/
theorem answer_of_failed (k : Nat) : answer code ⟨pc, true⟩ k = none :=
  answer_of_stopped rfl k

/-- At the end of the code there is no more answer. -/
theorem answer_of_end (h : code.drop pc = []) (k : Nat) : answer code ⟨pc, false⟩ k = none := by
  have hnone : code[pc]? = none := by rw [← List.head?_drop, h, List.head?_nil]
  refine answer_of_stopped ?_ k
  simp only [next, hnone, Bool.false_eq_true, if_false]

/-- A request where an instruction starts. -/
theorem next_of_ok {opcode : UInt8} {operands : List UInt8} {n : Nat}
    (hahead : code.drop pc = opcode :: operands) (h : lengthAt pc (opcode :: operands) = .ok n) :
    next code ⟨pc, false⟩ = (some (.ok ⟨pc, opcode, n⟩), ⟨pc + n, false⟩) := by
  have hopcode : code[pc]? = some opcode := by rw [← List.head?_drop, hahead, List.head?_cons]
  simp only [next, hopcode, hahead, h, Bool.false_eq_true, if_false]

/-- A request where none starts. -/
theorem next_of_error {bad : List UInt8} {e : ClassFileError} (hahead : code.drop pc = bad)
    (hbad : bad ≠ []) (h : lengthAt pc bad = .error e) :
    next code ⟨pc, false⟩ = (some (.error e), ⟨pc, true⟩) := by
  obtain ⟨b, rest, rfl⟩ := List.exists_cons_of_ne_nil hbad
  have hopcode : code[pc]? = some b := by rw [← List.head?_drop, hahead, List.head?_cons]
  simp only [next, hopcode, hahead, h, Bool.false_eq_true, if_false]

/-- **The answers of a walk** are the instructions that lie ahead and then those of the walk behind
them.

**Proof sketch.** Induction on the instructions. A request takes the first of them, and the others
lie ahead of the walk afterwards. -/
theorem answer_of_areAt {parts : List (List UInt8)} {rest : List UInt8}
    {last : List (Except ClassFileError Instruction)} (h : AreAt pc parts)
    (hahead : code.drop pc = parts.flatten ++ rest)
    (hlast : ∀ k, answer code ⟨pc + parts.flatten.length, false⟩ k = last[k]?) (k : Nat) :
    answer code ⟨pc, false⟩ k = ((placed pc parts).map .ok ++ last)[k]? := by
  induction h generalizing k with
  | nil => exact hlast k
  | @cons pc body parts head _ ih =>
    have hlength := head.lengthAt_append (parts.flatten ++ rest)
    rw [List.flatten_cons, List.length_append, ← Nat.add_assoc] at hlast
    rw [List.flatten_cons, List.append_assoc] at hahead
    have htail : code.drop (pc + body.length) = parts.flatten ++ rest := by
      rw [← List.drop_drop, hahead, List.drop_left]
    obtain ⟨opcode, operands, rfl⟩ := head.exists_cons
    have hnext := next_of_ok hahead hlength
    cases k with
    | zero =>
      rw [answer, hnext]
      rfl
    | succ k =>
      rw [answer, hnext]
      exact ih htail hlast k

end Walker

/-- The answers of a walk over good code are its instructions. -/
theorem IsRowOf.answer_eq {code : List UInt8} {parts : List (List UInt8)} (h : IsRowOf code parts)
    (k : Nat) : Walker.start.answer code k = (placed 0 parts)[k]?.map .ok := by
  have hahead : code.drop 0 = parts.flatten ++ [] := by
    rw [List.drop_zero, List.append_nil, h.code_eq]
  have hend : code.drop (0 + parts.flatten.length) = [] := by
    rw [Nat.zero_add, ← h.code_eq, List.drop_length]
  have hlast : ∀ k, Walker.answer code ⟨0 + parts.flatten.length, false⟩ k =
      ([] : List (Except ClassFileError Instruction))[k]? := Walker.answer_of_end hend
  rw [Walker.start, Walker.answer_of_areAt h.areAt hahead hlast, List.append_nil, List.getElem?_map]

/-- The answers of a walk over bad code are the instructions in front of the fault, and the
fault. -/
theorem StopsAt.answer_eq {code : List UInt8} {parts : List (List UInt8)} {bad : List UInt8}
    {e : ClassFileError} (h : StopsAt code parts bad e) (k : Nat) :
    Walker.start.answer code k = ((placed 0 parts).map .ok ++ [.error e])[k]? := by
  have hahead : code.drop 0 = parts.flatten ++ bad := by rw [List.drop_zero, h.code_eq]
  have hbad : code.drop (0 + parts.flatten.length) = bad := by
    rw [Nat.zero_add, h.code_eq, List.drop_left]
  have hnext := Walker.next_of_error hbad h.bad_ne_nil
    (by rw [Nat.zero_add]; exact h.lengthAt_bad)
  refine Walker.answer_of_areAt h.areAt hahead (fun k => ?_) k
  cases k with
  | zero =>
    rw [Walker.answer, hnext]
    rfl
  | succ k =>
    rw [Walker.answer, hnext]
    exact Walker.answer_of_failed k

/-! ## Exactness -/

/-- An instruction of code has a byte at least and ends inside the code. -/
theorem bounds_of_lengthAt {code : List UInt8} {pc n : Nat}
    (h : lengthAt pc (code.drop pc) = .ok n) : 1 ≤ n ∧ pc + n ≤ code.length := by
  have hpos := lengthAt_pos h
  have hle := lengthAt_le h
  rw [List.length_drop] at hle
  omega

/-- **Walking is exact.** Code is counted if it is a row of well-formed instructions, and its count
is how many they are. In that case there is no other way to cut it into instructions, and the walk
and the answers to requests tell each of them in order, where it stands. Otherwise they tell the
instructions in front of the first bad one and the fault that is found there; behind that there are
no more answers. The instruction at any place has a byte at least and ends inside the code. It is
measured in machine words without a number or an index out of range, if the code has fewer than half
as many bytes as there are words. -/
theorem walk_exactly (code : List UInt8) :
    (∀ n, count code = .ok n ↔ ∃ parts, IsRowOf code parts ∧ parts.length = n) ∧
    (∀ parts, IsRowOf code parts →
      (∀ parts', IsRowOf code parts' → parts' = parts) ∧
      walk code = ⟨placed 0 parts, none⟩ ∧
      ∀ k, Walker.start.answer code k = (placed 0 parts)[k]?.map .ok) ∧
    ((¬∃ parts, IsRowOf code parts) →
      ∃ parts bad e, StopsAt code parts bad e ∧
        count code = .error e ∧
        walk code = ⟨placed 0 parts, some e⟩ ∧
        ∀ k, Walker.start.answer code k = ((placed 0 parts).map .ok ++ [.error e])[k]?) ∧
    (∀ pc n, lengthAt pc (code.drop pc) = .ok n → 1 ≤ n ∧ pc + n ≤ code.length) ∧
    (code.length < 0x8000000000000000 →
      ∀ pc, lengthInWords code pc = ExceptT.mk (some (lengthAt pc (code.drop pc)))) := by
  refine ⟨fun n => count_eq_ok_iff, fun parts hrow => ⟨fun parts' hrow' => ?_, hrow.walk_eq,
    hrow.answer_eq⟩, fun hno => ?_, fun pc n => bounds_of_lengthAt, lengthInWords_eq⟩
  · exact hrow'.areAt.flatten_inj hrow.areAt (hrow'.code_eq.symm.trans hrow.code_eq)
  · rcases isRowOf_or_stopsAt code with hrow | ⟨parts, bad, e, hstop⟩
    · exact absurd hrow hno
    · exact ⟨parts, bad, e, hstop, hstop.count_eq, hstop.walk_eq, hstop.answer_eq⟩

/-- A switch without pairs between two instructions of one byte, aligned by two bytes: cut into its
instructions, counted, walked over and measured. An opcode that no instruction has stops a walk. -/
theorem walk_exactly_samples :
    (∃ code parts, IsRowOf code parts ∧ count code = .ok 3 ∧
      walk code = ⟨[⟨0, 0x00, 1⟩, ⟨1, 0xab, 11⟩, ⟨12, 0xb1, 1⟩], none⟩ ∧
      (∀ parts', IsRowOf code parts' → parts' = parts) ∧
      (∀ k, 3 ≤ k → Walker.start.answer code k = none) ∧
      1 + 11 ≤ code.length ∧
      lengthInWords code 1 = ExceptT.mk (some (.ok 11))) ∧
    (¬∃ parts, IsRowOf [0x00, 0xca] parts) ∧
    ∃ parts bad e, StopsAt [0x00, 0xca] parts bad e ∧ count [0x00, 0xca] = .error e := by
  constructor
  · let switch : List UInt8 := [0xab, 0, 0, 0, 0, 0, 0, 0, 0, 0, 0]
    let parts : List (List UInt8) := [[0x00], switch, [0xb1]]
    have hswitch : IsAt 1 switch :=
      @IsAt.lookupSwitch 1 [0, 0] [0, 0, 0, 0] [0, 0, 0, 0] [] ⟨by decide, rfl⟩ rfl rfl (by decide)
        (by decide)
    have hrow : IsRowOf parts.flatten parts :=
      ⟨rfl, .cons (.fixed (by decide)) (.cons hswitch (.cons (.fixed (by decide)) (.nil _)))⟩
    obtain ⟨hcount, hgood, -, hbounds, hwords⟩ := walk_exactly parts.flatten
    obtain ⟨hunique, hwalk, hanswers⟩ := hgood parts hrow
    have hlength : lengthAt 1 (parts.flatten.drop 1) = .ok 11 := by decide +kernel
    refine ⟨parts.flatten, parts, hrow, (hcount 3).2 ⟨parts, hrow, rfl⟩, hwalk, hunique,
      fun k hk => ?_, (hbounds 1 11 hlength).2, by rw [hwords (by decide), hlength]⟩
    rw [hanswers, List.getElem?_eq_none hk]
    rfl
  · obtain ⟨hcount, -, hbad, -, -⟩ := walk_exactly [0x00, 0xca]
    have herror : count [0x00, 0xca] = .error (.invalidOpcode 0xca 1) := by decide +kernel
    have hno : ¬∃ parts, IsRowOf [0x00, 0xca] parts := by
      rintro ⟨parts, hrow⟩
      have hok := (hcount parts.length).2 ⟨parts, hrow, rfl⟩
      rw [herror] at hok
      cases hok
    obtain ⟨parts, bad, e, hstop, hfault, -, -⟩ := hbad hno
    exact ⟨hno, parts, bad, e, hstop, hfault⟩

end Code

end ClassAccess
