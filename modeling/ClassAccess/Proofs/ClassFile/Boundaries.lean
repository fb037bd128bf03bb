import ClassAccess.ClassFile.Instruction
import ClassAccess.Proofs.Bytes.Splice

/-!
# Where instructions start

Good code is a row of instructions without gaps. The places where they start are found by adding up
lengths, and they stay when an opcode is exchanged for one of the same shape.

## Main definitions

* `Code.Row` — code that is a row of instructions.
* `Code.Boundary` — where an instruction starts or the code ends.
* `Code.Holds` — an instruction of the code.

## Main results

* `Code.exists_row_of_count` — code that is counted is a row.
* `Code.Row.mem_iff` — the instructions of a row are those that the code holds.
* `Code.Row.exists_of_opened` — a row stays one when calls are bound when they run.
-/

set_option autoImplicit false

namespace ClassAccess

/-! ## Lengths -/

namespace Instruction

/-- A part of a byte string depends only on the bytes up to its end. -/
theorem take_drop_congr {xs ys : List UInt8} {m start n : Nat} (h : ys.take m = xs.take m)
    (hm : start + n ≤ m) : (ys.drop start).take n = (xs.drop start).take n := by
  have hpart : ∀ zs : List UInt8, (zs.drop start).take n = ((zs.take m).drop start).take n := by
    intro zs
    rw [List.drop_take, List.take_take, Nat.min_eq_left (by omega)]
  rw [hpart ys, hpart xs, h]

/-- A signed number depends only on the bytes up to its end. -/
theorem signedAt?_congr {xs ys : List UInt8} {m start : Nat} (h : ys.take m = xs.take m)
    (hm : start + 4 ≤ m) : signedAt? ys start = signedAt? xs start := by
  rw [signedAt?, signedAt?, take_drop_congr h hm]

/-- The length of a jump by an index depends only on the bytes of the jump. -/
theorem tableSwitchLength_congr {pc n : Nat} {xs ys : List UInt8}
    (h : tableSwitchLength pc xs = .ok n) (hxy : ys.take (n - 1) = xs.take (n - 1)) :
    tableSwitchLength pc ys = .ok n := by
  simp only [tableSwitchLength] at h ⊢
  cases hlow : signedAt? xs (switchPadding pc + 4) with
  | none => simp [hlow] at h
  | some low =>
    cases hhigh : signedAt? xs (switchPadding pc + 8) with
    | none => simp [hlow, hhigh] at h
    | some high =>
      have hn : switchPadding pc + 12 ≤ n - 1 := by
        simp only [hlow, hhigh] at h
        split at h
        · cases h
        · cases h
          omega
      rw [signedAt?_congr hxy (by omega), signedAt?_congr hxy (by omega)]
      exact h

/-- The length of a jump by pairs depends only on the bytes of the jump. -/
theorem lookupSwitchLength_congr {pc n : Nat} {xs ys : List UInt8}
    (h : lookupSwitchLength pc xs = .ok n) (hxy : ys.take (n - 1) = xs.take (n - 1)) :
    lookupSwitchLength pc ys = .ok n := by
  simp only [lookupSwitchLength] at h ⊢
  cases hpairs : signedAt? xs (switchPadding pc + 4) with
  | none => simp [hpairs] at h
  | some pairs =>
    have hn : switchPadding pc + 8 ≤ n - 1 := by
      simp only [hpairs] at h
      split at h
      · cases h
      · cases h
        omega
    rw [signedAt?_congr hxy (by omega)]
    exact h

/-- A wide instruction has more than its opcode. -/
theorem one_lt_wideLength {widened : UInt8} {n : Nat} (h : Shape.wideLength? widened = some n) :
    1 < n := by
  rw [Shape.wideLength?] at h
  split at h
  · cases h
    omega
  · split at h
    · cases h
      omega
    · cases h

/-- Byte strings that agree on more than nothing start alike. -/
theorem eq_cons_of_take_eq {n : Nat} {x : UInt8} {xs ys : List UInt8} (hn : 0 < n)
    (h : ys.take n = (x :: xs).take n) : ∃ ys', ys = x :: ys' := by
  cases ys with
  | nil =>
    have hlen := congrArg List.length h
    simp only [List.length_take, List.length_nil, List.length_cons] at hlen
    omega
  | cons y ys =>
    obtain ⟨k, rfl⟩ := Nat.exists_eq_add_of_lt hn
    rw [List.take_succ_cons, List.take_succ_cons] at h
    exact ⟨ys, by rw [List.head_eq_of_cons_eq h]⟩

/-- **The length that an instruction claims depends only on its own bytes.** -/
theorem claimedLength_congr {pc n : Nat} {opcode : UInt8} {xs ys : List UInt8}
    (h : claimedLength pc opcode xs = .ok n) (hxy : ys.take (n - 1) = xs.take (n - 1)) :
    claimedLength pc opcode ys = .ok n := by
  unfold claimedLength at h ⊢
  cases hshape : Shape.ofOpcode opcode with
  | fixed length =>
    simp only [hshape] at h ⊢
    exact h
  | tableSwitch =>
    simp only [hshape] at h ⊢
    exact tableSwitchLength_congr h hxy
  | lookupSwitch =>
    simp only [hshape] at h ⊢
    exact lookupSwitchLength_congr h hxy
  | wide =>
    simp only [hshape] at h ⊢
    cases xs with
    | nil => cases h
    | cons widened xs =>
      simp only at h
      cases hwide : Shape.wideLength? widened with
      | none =>
        rw [hwide] at h
        cases h
      | some length =>
        rw [hwide] at h
        cases h
        have hlt := one_lt_wideLength hwide
        obtain ⟨ys', rfl⟩ := eq_cons_of_take_eq (by omega) hxy
        simp only [hwide]
  | undefined =>
    simp only [hshape] at h
    cases h

/-- The two calls have the same length wherever they stand. -/
theorem claimedLength_invokeVirtual {pc : Nat} {xs ys : List UInt8} :
    claimedLength pc invokeVirtual ys = claimedLength pc invokeSpecial xs := by
  have hv : Shape.ofOpcode invokeVirtual = .fixed 3 := by decide
  have hs : Shape.ofOpcode invokeSpecial = .fixed 3 := by decide
  simp only [claimedLength, hv, hs]

/-- An instruction keeps its length when its operands stay and its opcode does, or when a call that
was bound beforehand is bound when it runs. -/
theorem lengthAt_congr {pc n : Nat} {x y : UInt8} {xs ys : List UInt8}
    (h : lengthAt pc (x :: xs) = .ok n) (hlen : ys.length = xs.length)
    (hxy : ys.take (n - 1) = xs.take (n - 1))
    (hop : y = x ∨ x = invokeSpecial ∧ y = invokeVirtual) : lengthAt pc (y :: ys) = .ok n := by
  rw [lengthAt_cons_eq_ok_iff] at h ⊢
  obtain ⟨hclaimed, hfits⟩ := h
  refine ⟨?_, by omega⟩
  rcases hop with rfl | ⟨rfl, rfl⟩
  · exact claimedLength_congr hclaimed hxy
  · rw [claimedLength_invokeVirtual]
    exact hclaimed

end Instruction

/-! ## Rows -/

namespace Code

open Instruction

/-- From `pc` on, `ahead` is the row of instructions `is`. -/
inductive Row : (pc : Nat) → (ahead : List UInt8) → (is : List Instruction) → Prop
  /-- No code is no instructions. -/
  | nil (pc : Nat) : Row pc [] []
  /-- The next instruction starts where the first one ends. -/
  | cons {pc n : Nat} {opcode : UInt8} {operands : List UInt8} {is : List Instruction}
      (head : lengthAt pc (opcode :: operands) = .ok n)
      (tail : Row (pc + n) ((opcode :: operands).drop n) is) :
      Row pc (opcode :: operands) (⟨pc, opcode, n⟩ :: is)

/-- The walk passes over the bytes of an instruction that it is in. -/
theorem walkFrom_inside {pc k : Nat} {ahead : List UInt8} (h : k ≤ ahead.length) :
    walkFrom pc k ahead = walkFrom (pc + k) 0 (ahead.drop k) := by
  induction k generalizing pc ahead with
  | zero => rfl
  | succ k ih =>
    cases ahead with
    | nil => cases h
    | cons b rest =>
      rw [List.drop_succ_cons, ← Nat.add_assoc, Nat.add_right_comm]
      exact ih (Nat.le_of_succ_le_succ h)

/-- The walk over a good instruction and what follows it. -/
theorem walkFrom_of_ok {pc n : Nat} {opcode : UInt8} {operands : List UInt8}
    (h : lengthAt pc (opcode :: operands) = .ok n) :
    walkFrom pc 0 (opcode :: operands) =
      { walkFrom (pc + n) 0 ((opcode :: operands).drop n) with
        instructions := ⟨pc, opcode, n⟩ ::
          (walkFrom (pc + n) 0 ((opcode :: operands).drop n)).instructions } := by
  have hpos := lengthAt_pos h
  have hle := lengthAt_le h
  obtain ⟨k, rfl⟩ : ∃ k, n = k + 1 := ⟨n - 1, by omega⟩
  rw [walkFrom, h]
  simp only [Nat.add_sub_cancel]
  rw [walkFrom_inside (by simpa using hle), List.drop_succ_cons, Nat.add_assoc, Nat.add_comm 1 k]

/-- **A walk without fault is a row.**

**Proof sketch.** Induction on the length of what lies ahead, one instruction at a time. -/
theorem row_of_walkFrom {pc : Nat} {ahead : List UInt8} (h : (walkFrom pc 0 ahead).fault = none) :
    Row pc ahead (walkFrom pc 0 ahead).instructions := by
  match ahead with
  | [] => exact .nil pc
  | opcode :: operands =>
    cases hn : lengthAt pc (opcode :: operands) with
    | error e =>
      rw [walkFrom, hn] at h
      cases h
    | ok n =>
      have hpos := lengthAt_pos hn
      rw [walkFrom_of_ok hn] at h ⊢
      exact .cons hn (row_of_walkFrom h)
termination_by ahead.length
decreasing_by
  simp only [List.length_drop, List.length_cons]
  omega

/-- The walk over a row gives its instructions. -/
theorem Row.walkFrom_eq {pc : Nat} {ahead : List UInt8} {is : List Instruction}
    (h : Row pc ahead is) : walkFrom pc 0 ahead = ⟨is, none⟩ := by
  induction h with
  | nil => rfl
  | cons head _ ih => rw [walkFrom_of_ok head, ih]

/-- **Code that is counted is a row**, and the count is the number of its instructions. -/
theorem exists_row_of_count {code : List UInt8} {n : Nat} (h : count code = .ok n) :
    ∃ is, Row 0 code is ∧ is.length = n := by
  simp only [count] at h
  split at h
  · next hfault =>
    cases h
    exact ⟨_, row_of_walkFrom hfault, rfl⟩
  · cases h

/-- A row is counted. -/
theorem Row.count_eq {code : List UInt8} {is : List Instruction} (h : Row 0 code is) :
    count code = .ok is.length := by
  have hwalk : walk code = ⟨is, none⟩ := h.walkFrom_eq
  simp only [count, hwalk]

/-- The code that can be counted is the code that is a row. -/
theorem exists_count_iff {code : List UInt8} :
    (∃ n, count code = .ok n) ↔ ∃ is, Row 0 code is := by
  constructor
  · rintro ⟨n, hn⟩
    obtain ⟨is, his, -⟩ := exists_row_of_count hn
    exact ⟨is, his⟩
  · rintro ⟨is, his⟩
    exact ⟨_, his.count_eq⟩

namespace Row

variable {pc : Nat} {ahead : List UInt8} {is : List Instruction}

/-- The instructions of a row start where the row does or behind that. -/
theorem le_pc (h : Row pc ahead is) {i : Instruction} (hi : i ∈ is) : pc ≤ i.pc := by
  induction h with
  | nil => cases hi
  | cons head _ ih =>
    rcases List.mem_cons.1 hi with rfl | hi
    · exact Nat.le_refl _
    · have := ih hi
      omega

/-- The instructions of a row start one behind the other. -/
theorem pairwise (h : Row pc ahead is) : is.Pairwise fun i j => i.pc < j.pc := by
  induction h with
  | nil => exact .nil
  | @cons pc _ _ _ _ head tail ih =>
    refine .cons (fun j hj => ?_) ih
    have hpos := lengthAt_pos head
    have hle := tail.le_pc hj
    show pc < j.pc
    omega

/-- **A row stays one when calls that were bound beforehand are bound when they run.** The
instructions start in the same places and have the same lengths.

**Proof sketch.** Induction on the row. No other instruction starts inside the first one, so that
its operands stay, and its opcode stays or keeps its shape. -/
theorem exists_of_opened {ahead' : List UInt8} (h : Row pc ahead is)
    (hlen : ahead'.length = ahead.length)
    (hopened : ∀ j, ahead'[j]? = ahead[j]? ∨ ahead[j]? = some invokeSpecial ∧
      ahead'[j]? = some invokeVirtual ∧ ∃ i ∈ is, i.pc = pc + j) :
    ∃ is', Row pc ahead' is' ∧
      is'.map (fun i => (i.pc, i.length)) = is.map fun i => (i.pc, i.length) := by
  induction h generalizing ahead' with
  | nil pc =>
    rw [List.length_nil, List.length_eq_zero_iff] at hlen
    subst hlen
    exact ⟨[], .nil pc, rfl⟩
  | @cons pc n opcode operands is head tail ih =>
    cases ahead' with
    | nil => cases hlen
    | cons opcode' operands' =>
      have hpos := lengthAt_pos head
      have hlen' : operands'.length = operands.length := Nat.succ.inj hlen
      have hinside : operands'.take (n - 1) = operands.take (n - 1) := by
        apply List.ext_getElem?
        intro j
        by_cases hj : j < n - 1
        · rw [List.getElem?_take_of_lt hj, List.getElem?_take_of_lt hj]
          rcases hopened (j + 1) with heq | ⟨-, -, i, hi, hpc⟩
          · exact heq
          · rcases List.mem_cons.1 hi with rfl | hi
            · simp only at hpc
              omega
            · have := tail.le_pc hi
              omega
        · rw [List.getElem?_take_eq_none (by omega), List.getElem?_take_eq_none (by omega)]
      have hop : opcode' = opcode ∨ opcode = invokeSpecial ∧ opcode' = invokeVirtual := by
        rcases hopened 0 with heq | ⟨hs, hv, -⟩
        · exact .inl (Option.some.inj heq)
        · exact .inr ⟨Option.some.inj hs, Option.some.inj hv⟩
      have head' := lengthAt_congr head hlen' hinside hop
      have hlen'' :
          ((opcode' :: operands').drop n).length = ((opcode :: operands).drop n).length := by
        rw [List.length_drop, List.length_drop, hlen]
      obtain ⟨is', hrow, hmap⟩ := ih hlen'' fun j => by
        rw [List.getElem?_drop, List.getElem?_drop]
        rcases hopened (n + j) with heq | ⟨hs, hv, i, hi, hpc⟩
        · exact .inl heq
        · rcases List.mem_cons.1 hi with rfl | hi
          · simp only at hpc
            omega
          · exact .inr ⟨hs, hv, i, hi, by omega⟩
      refine ⟨_, .cons head' hrow, ?_⟩
      rw [List.map_cons, List.map_cons, hmap]

end Row

/-! ## Boundaries -/

/-- Where an instruction of the code starts, or where the code ends. -/
inductive Boundary (code : List UInt8) : Nat → Prop
  /-- The first instruction starts where the code does. -/
  | start : Boundary code 0
  /-- The next one starts where an instruction ends. -/
  | next {pc n : Nat} (h : Boundary code pc) (hn : lengthAt pc (code.drop pc) = .ok n) :
      Boundary code (pc + n)

/-- The code has the instruction `i`. -/
structure Holds (code : List UInt8) (i : Instruction) : Prop where
  /-- It starts where an instruction does. -/
  boundary : Boundary code i.pc
  /-- Its opcode stands there. -/
  opcode : code[i.pc]? = some i.opcode
  /-- It has the length that its opcode and its operands fix. -/
  length : lengthAt i.pc (code.drop i.pc) = .ok i.length

/-- The instructions of a row are in the code that the row is a part of. -/
theorem Row.holds {code ahead : List UInt8} {pc : Nat} {is : List Instruction} (h : Row pc ahead is)
    (hahead : ahead = code.drop pc) (hpc : Boundary code pc) {i : Instruction} (hi : i ∈ is) :
    Holds code i := by
  induction h with
  | nil => cases hi
  | @cons pc n opcode operands is head tail ih =>
    rw [hahead] at head
    rcases List.mem_cons.1 hi with rfl | hi
    · refine ⟨hpc, ?_, head⟩
      have hfirst := congrArg (fun l => l[0]?) hahead
      rw [List.getElem?_drop] at hfirst
      exact hfirst.symm
    · refine ih ?_ (hpc.next head) hi
      rw [hahead, List.drop_drop]

/-- From a boundary on, the code is a row that ends like the whole row. -/
theorem Row.from_boundary {code : List UInt8} {is : List Instruction} (h : Row 0 code is) {pc : Nat}
    (hpc : Boundary code pc) :
    ∃ before after, is = before ++ after ∧ Row pc (code.drop pc) after := by
  induction hpc with
  | start => exact ⟨[], is, rfl, h⟩
  | @next pc n _ hn ih =>
    obtain ⟨before, after, rfl, hrow⟩ := ih
    generalize hd : code.drop pc = ahead at hrow hn
    cases hrow with
    | nil => cases hn
    | cons head tail =>
      rw [hn] at head
      cases head
      refine ⟨before ++ [_], _, List.append_cons .., ?_⟩
      rwa [← hd, List.drop_drop] at tail

/-- **The instructions of a row are those that the code holds.** -/
theorem Row.mem_iff {code : List UInt8} {is : List Instruction} (h : Row 0 code is)
    {i : Instruction} : i ∈ is ↔ Holds code i := by
  constructor
  · exact fun hi => h.holds (List.drop_zero).symm .start hi
  · rintro ⟨hpc, hop, hn⟩
    obtain ⟨before, after, rfl, hrow⟩ := h.from_boundary hpc
    generalize hd : code.drop i.pc = ahead at hrow hn
    cases hrow with
    | nil => cases hn
    | @cons _ n opcode _ _ head tail =>
      rw [hn] at head
      cases head
      have hfirst := congrArg (fun l => l[0]?) hd
      rw [List.getElem?_drop, Nat.add_zero, hop] at hfirst
      cases hfirst
      exact List.mem_append_right _ List.mem_cons_self

end Code

end ClassAccess
