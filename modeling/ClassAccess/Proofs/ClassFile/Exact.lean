import Mathlib.Data.List.Forall2
import ClassAccess.ClassFile.Cursor
import ClassAccess.Proofs.Bytes.Splice

/-!
# What a reader reads

A reader that succeeds has moved its cursor over some bytes. For each reader there is a way to write
down what it reads, and the two fit: the reader succeeds exactly on what is written like that, and
it gives back what was written.

## Main definitions

* `Cursor.Moves` — one cursor is another one moved over some bytes.
* `Reader.Exact` — a reader reads exactly what a writer writes.
* `Placed` — the members of a list, each in its place behind the ones before it.

## Main results

* `Reader.u2_eq_ok_iff`, `Reader.u4_eq_ok_iff` — words are read as they are written.
* `Placed.forall₂`, `Placed.exists_of_forall` — members in place, one by one.
* `Reader.many_eq_ok_iff` — a reader that is exact is so when it is run many times.

## Design

Nothing is said here about runs that fail. What a reader gives may depend on the place, since parts
of a class file know where they stand; this is why `Exact` and `Placed` speak of offsets.
-/

set_option autoImplicit false

namespace ClassAccess

/-! ## Moving cursors -/

/-- `d` is `c` moved over `bytes`. -/
structure Cursor.Moves (c : Cursor) (bytes : List UInt8) (d : Cursor) : Prop where
  /-- The bytes lie ahead of `c`, and what follows them is ahead of `d`. -/
  ahead : c.ahead = bytes ++ d.ahead
  /-- The offset counts the bytes. -/
  offset : d.offset = c.offset + bytes.length

namespace Cursor.Moves

/-- No bytes are no move. -/
theorem refl (c : Cursor) : c.Moves [] c := ⟨rfl, rfl⟩

/-- A move over no bytes ends where it starts. -/
theorem eq_of_nil {c d : Cursor} (h : c.Moves [] d) : d = c := by
  obtain ⟨co, ca⟩ := c
  obtain ⟨dof, da⟩ := d
  obtain ⟨ha, ho⟩ := h
  simp_all

/-- Two moves in a row. -/
theorem trans {c d e : Cursor} {x y : List UInt8} (h₁ : c.Moves x d) (h₂ : d.Moves y e) :
    c.Moves (x ++ y) e := by
  refine ⟨?_, ?_⟩
  · rw [h₁.ahead, h₂.ahead, List.append_assoc]
  · rw [h₂.offset, h₁.offset, List.length_append, Nat.add_assoc]

/-- A move over two parts is two moves. -/
theorem split {c e : Cursor} {x y : List UInt8} (h : c.Moves (x ++ y) e) :
    ∃ d, c.Moves x d ∧ d.Moves y e := by
  refine ⟨⟨c.offset + x.length, y ++ e.ahead⟩, ⟨?_, rfl⟩, rfl, ?_⟩
  · rw [h.ahead, List.append_assoc]
  · rw [h.offset, List.length_append, Nat.add_assoc]

end Cursor.Moves

/-! ## Single readers -/

namespace Reader

variable {α β ρ : Type}

/-- An outcome that does not depend on the cursor. -/
theorem ofExcept_eq_ok_iff {x : Except ClassFileError α} {c d : Cursor} {a : α} :
    ofExcept x c = .ok (a, d) ↔ x = .ok a ∧ d = c := by
  cases x with
  | error e => simp [ofExcept]
  | ok b =>
    simp only [ofExcept, Except.ok.injEq, Prod.mk.injEq]
    constructor <;> rintro ⟨rfl, rfl⟩ <;> exact ⟨rfl, rfl⟩

/-- The place of the cursor. -/
theorem offset_eq_ok_iff {c d : Cursor} {o : Nat} :
    offset c = .ok (o, d) ↔ o = c.offset ∧ d = c := by
  constructor
  · intro h
    cases h
    exact ⟨rfl, rfl⟩
  · rintro ⟨rfl, rfl⟩
    rfl

/-- `take` moves over the bytes that it gives. -/
theorem take_eq_ok_iff_moves {n : Nat} {c d : Cursor} {body : List UInt8} :
    take n c = .ok (body, d) ↔ body.length = n ∧ c.Moves body d := by
  rw [take_eq_ok_iff]
  constructor
  · rintro ⟨hl, ha, ho⟩
    exact ⟨hl, ha, hl ▸ ho⟩
  · rintro ⟨hl, ha, ho⟩
    exact ⟨hl, ha, hl ▸ ho⟩

/-- `skip` moves over bytes of the right number. -/
theorem skip_eq_ok_iff {n : Nat} {c d : Cursor} {u : Unit} :
    skip n c = .ok (u, d) ↔ ∃ body : List UInt8, body.length = n ∧ c.Moves body d := by
  have hskip : skip n = take n >>= fun _ => pure () := rfl
  rw [hskip, Parser.bind_eq_ok_iff]
  simp only [take_eq_ok_iff_moves, Parser.pure_eq_ok_iff]
  constructor
  · rintro ⟨body, c', ⟨hl, hm⟩, -, rfl⟩
    exact ⟨body, hl, hm⟩
  · rintro ⟨body, hl, hm⟩
    exact ⟨body, d, ⟨hl, hm⟩, trivial, rfl⟩

/-- A byte is read as it is. -/
theorem u1_eq_ok_iff {c d : Cursor} {b : UInt8} : u1 c = .ok (b, d) ↔ c.Moves [b] d := by
  simp only [u1, Parser.bind_eq_ok_iff, take_eq_ok_iff_moves, Parser.pure_eq_ok_iff]
  constructor
  · rintro ⟨body, c', ⟨hl, hm⟩, rfl, rfl⟩
    match body, hl with
    | [b], _ =>
      have hb : UInt8.ofNat (bigEndian [b]) = b := by simp [bigEndian]
      rwa [hb]
  · intro hm
    exact ⟨[b], d, ⟨rfl, hm⟩, by simp [bigEndian], rfl⟩

/-- A word is read as it is written. -/
theorem u2_eq_ok_iff {c d : Cursor} {w : UInt16} : u2 c = .ok (w, d) ↔ c.Moves (wordBytes w) d := by
  simp only [u2, Parser.bind_eq_ok_iff, take_eq_ok_iff_moves, Parser.pure_eq_ok_iff]
  constructor
  · rintro ⟨body, c', ⟨hl, hm⟩, rfl, rfl⟩
    rwa [wordBytes_ofNat_bigEndian hl]
  · intro hm
    exact ⟨wordBytes w, d, ⟨rfl, hm⟩, by rw [bigEndian_wordBytes, UInt16.ofNat_toNat], rfl⟩

/-- A long word is read as it is written. -/
theorem u4_eq_ok_iff {c d : Cursor} {w : UInt32} : u4 c = .ok (w, d) ↔ c.Moves (longBytes w) d := by
  simp only [u4, Parser.bind_eq_ok_iff, take_eq_ok_iff_moves, Parser.pure_eq_ok_iff]
  constructor
  · rintro ⟨body, c', ⟨hl, hm⟩, rfl, rfl⟩
    rwa [longBytes_ofNat_bigEndian hl]
  · intro hm
    exact ⟨longBytes w, d, ⟨rfl, hm⟩, by rw [bigEndian_longBytes, UInt32.ofNat_toNat], rfl⟩

/-! ## Exact readers -/

/-- The reader reads exactly what `write` writes: `means o raw a` says that `raw`, written at offset
`o`, stands for `a`. -/
def Exact (reader : Reader α) (write : ρ → List UInt8) (means : Nat → ρ → α → Prop) : Prop :=
  ∀ (c : Cursor) (a : α) (d : Cursor),
    reader c = .ok (a, d) ↔ ∃ raw, means c.offset raw a ∧ c.Moves (write raw) d

end Reader

/-! ## Lists in place -/

section Placed

variable {α ρ : Type} {write : ρ → List UInt8} {means : Nat → ρ → α → Prop}

/-- Written one after the other from offset `o` on, the members of `raws` stand for those of
`as`. -/
inductive Placed (write : ρ → List UInt8) (means : Nat → ρ → α → Prop) :
    (o : Nat) → (raws : List ρ) → (as : List α) → Prop
  /-- Nothing stands for nothing. -/
  | nil (o : Nat) : Placed write means o [] []
  /-- The next member stands right behind the first one. -/
  | cons {o : Nat} {raw : ρ} {a : α} {raws : List ρ} {as : List α} (head : means o raw a)
      (tail : Placed write means (o + (write raw).length) raws as) :
      Placed write means o (raw :: raws) (a :: as)

namespace Placed

/-- There are as many of one as of the other. -/
theorem length_eq {o : Nat} {raws : List ρ} {as : List α} (h : Placed write means o raws as) :
    raws.length = as.length := by
  induction h with
  | nil o => rfl
  | cons _ _ ih => rw [List.length_cons, List.length_cons, ih]

/-- Two rows of parts, the second one behind the first one. -/
theorem append {o : Nat} {raws₁ raws₂ : List ρ} {as₁ as₂ : List α}
    (h₁ : Placed write means o raws₁ as₁)
    (h₂ : Placed write means (o + (raws₁.flatMap write).length) raws₂ as₂) :
    Placed write means o (raws₁ ++ raws₂) (as₁ ++ as₂) := by
  induction h₁ with
  | nil o => simpa using h₂
  | cons head _ ih =>
    refine .cons head (ih ?_)
    rwa [List.flatMap_cons, List.length_append, ← Nat.add_assoc] at h₂

/-- The parts around one member of a row, and that member. -/
theorem around {as₁ as₂ : List α} {a : α} :
    ∀ {o : Nat} {raws : List ρ}, Placed write means o raws (as₁ ++ a :: as₂) →
      ∃ raws₁ raw raws₂, raws = raws₁ ++ raw :: raws₂ ∧ Placed write means o raws₁ as₁ ∧
        means (o + (raws₁.flatMap write).length) raw a ∧
        Placed write means (o + (raws₁.flatMap write).length + (write raw).length) raws₂ as₂ := by
  induction as₁ with
  | nil =>
    rintro o _ (_ | ⟨head, tail⟩)
    exact ⟨[], _, _, rfl, .nil o, head, tail⟩
  | cons b as₁ ih =>
    rintro o _ (_ | ⟨head, tail⟩)
    obtain ⟨raws₁, raw, raws₂, rfl, h₁, hm, h₂⟩ := ih tail
    refine ⟨_ :: raws₁, raw, raws₂, rfl, .cons head h₁, ?_, ?_⟩
    · rwa [List.flatMap_cons, List.length_append, ← Nat.add_assoc]
    · rwa [List.flatMap_cons, List.length_append, ← Nat.add_assoc]

/-- A member of a list in place stands somewhere in the file. -/
theorem exists_of_mem {o : Nat} {raws : List ρ} {as : List α} {a : α}
    (h : Placed write means o raws as) (ha : a ∈ as) {pre : List UInt8} (post : List UInt8)
    (ho : pre.length = o) :
    ∃ raw pre' post', pre ++ (raws.flatMap write ++ post) = pre' ++ (write raw ++ post') ∧
      means pre'.length raw a := by
  obtain ⟨as₁, as₂, rfl⟩ := List.append_of_mem ha
  obtain ⟨raws₁, raw, raws₂, rfl, -, hmean, -⟩ := h.around
  refine ⟨raw, pre ++ raws₁.flatMap write, raws₂.flatMap write ++ post, ?_, ?_⟩
  · simp only [List.flatMap_append, List.flatMap_cons, List.append_assoc]
  · rwa [List.length_append, ho]

/-- Members in place are related one by one if each of them is in its place in the file. -/
theorem forall₂ {R : ρ → α → Prop} {o : Nat} {raws : List ρ} {as : List α}
    (h : Placed write means o raws as) {pre : List UInt8} (post : List UInt8) (ho : pre.length = o)
    (step : ∀ pre' raw post' a, pre' ++ (write raw ++ post') = pre ++ (raws.flatMap write ++ post) →
      means pre'.length raw a → R raw a) : List.Forall₂ R raws as := by
  induction h generalizing pre with
  | nil => exact .nil
  | @cons o raw a raws as head tail ih =>
    rw [List.flatMap_cons, List.append_assoc] at step
    refine .cons (step pre raw _ a rfl (ho ▸ head)) (@ih (pre ++ write raw) ?_ ?_)
    · rw [List.length_append, ho]
    · intro pre' raw' post' a' hfile
      refine step pre' raw' post' a' ?_
      rw [hfile, List.append_assoc]

/-- Members in place are related one by one if each of them is wherever it stands. -/
theorem forall₂_of_imp {R : ρ → α → Prop} {o : Nat} {raws : List ρ} {as : List α}
    (h : Placed write means o raws as) (step : ∀ o raw a, means o raw a → R raw a) :
    List.Forall₂ R raws as := by
  have ho : (List.replicate o (0 : UInt8)).length = o := List.length_replicate
  exact h.forall₂ [] ho fun _ raw _ a _ hmeans => step _ raw a hmeans

/-- What holds of everything that stands for something holds of members in place. -/
theorem forall_mem {p : ρ → Prop} {o : Nat} {raws : List ρ} {as : List α}
    (h : Placed write means o raws as) (step : ∀ o raw a, means o raw a → p raw) :
    ∀ raw ∈ raws, p raw := by
  induction h with
  | nil => exact List.forall_mem_nil p
  | cons head _ ih => exact List.forall_mem_cons.2 ⟨step _ _ _ head, ih⟩

/-- Members that each stand for something wherever they stand do so in a row. -/
theorem exists_of_forall (write : ρ → List UInt8) {raws : List ρ}
    (h : ∀ raw ∈ raws, ∀ o, ∃ a, means o raw a) (o : Nat) : ∃ as, Placed write means o raws as := by
  induction raws generalizing o with
  | nil => exact ⟨[], .nil o⟩
  | cons raw raws ih =>
    obtain ⟨hraw, hraws⟩ := List.forall_mem_cons.1 h
    obtain ⟨a, ha⟩ := hraw o
    obtain ⟨as, has⟩ := ih hraws (o + (write raw).length)
    exact ⟨a :: as, .cons ha has⟩

end Placed

/-- **An exact reader is exact when it is run many times.**

**Proof sketch.** Induction on the number of runs. The first run moves over what stands for the
first result, the others start where it stopped. -/
theorem Reader.many_eq_ok_iff {reader : Reader α} (hr : reader.Exact write means) (n : Nat)
    {c d : Cursor} {as : List α} :
    Parser.many reader n c = .ok (as, d) ↔
      ∃ raws, raws.length = n ∧ Placed write means c.offset raws as ∧
        c.Moves (raws.flatMap write) d := by
  induction n generalizing c as with
  | zero =>
    rw [Parser.many, Parser.pure_eq_ok_iff]
    constructor
    · rintro ⟨rfl, rfl⟩
      exact ⟨[], rfl, .nil _, .refl d⟩
    · rintro ⟨raws, hl, hp, hm⟩
      rw [List.length_eq_zero_iff] at hl
      subst hl
      cases hp
      exact ⟨rfl, hm.eq_of_nil⟩
  | succ n ih =>
    simp only [Parser.many, Parser.bind_eq_ok_iff, Parser.pure_eq_ok_iff]
    constructor
    · rintro ⟨a, c₁, ha, as, c₂, has, rfl, rfl⟩
      obtain ⟨raw, hmean, hm₁⟩ := (hr c a c₁).1 ha
      obtain ⟨raws, rfl, hp, hm₂⟩ := ih.1 has
      refine ⟨raw :: raws, rfl, .cons hmean (hm₁.offset ▸ hp), ?_⟩
      exact hm₁.trans hm₂
    · rintro ⟨raws, hl, hp, hm⟩
      cases hp with
      | nil => cases hl
      | cons head tail =>
        rw [List.flatMap_cons] at hm
        obtain ⟨c₁, hm₁, hm₂⟩ := hm.split
        refine ⟨_, c₁, (hr _ _ _).2 ⟨_, head, hm₁⟩, _, d, ?_, rfl, rfl⟩
        exact ih.2 ⟨_, Nat.succ.inj hl, hm₁.offset ▸ tail, hm₂⟩

end Placed

end ClassAccess
