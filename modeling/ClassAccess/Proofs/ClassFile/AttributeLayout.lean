import ClassAccess.ClassFile.Read
import ClassAccess.Proofs.ClassFile.Exact
import ClassAccess.Proofs.ClassFile.References

/-!
# How attributes are written

An attribute is the slot of its name and its contents behind their length. Two attributes are looked
into: the code of a method stands between its frame sizes and its table of handlers, and the inner
classes of a class are eight bytes each.

## Main definitions

* `counted` — a list behind the number of its members.
* `RawAttribute` — an attribute as it is written.
* `CodeTail` — what may follow the code in a code attribute.
* `RawInnerClass` — an inner class as it is written.

## Main results

* `FileAttribute.read_exact` — attributes are read as they are written.
* `FileAttribute.fold_eq_ok_iff` — taking account of many of them is reading them first.
* `Reader.exists_counted_iff`, `FileAttribute.exists_counted_iff` — lists behind their number.
* `FileAttribute.codeSpan_eq_ok_iff` — where the code of a code attribute stands.
* `FileAttribute.innerClasses_eq_ok_iff` — the inner classes in an attribute.
* `foldlM_named_eq_ok_iff` — of the attributes of a name the last one decides.
-/

set_option autoImplicit false

namespace ClassAccess

/-! ## Counted lists -/

section Counted

variable {ρ : Type}

/-- A list as it is written behind the number of its members. -/
def counted (write : ρ → List UInt8) (raws : List ρ) : List UInt8 :=
  wordBytes (UInt16.ofNat raws.length) ++ raws.flatMap write

/-- The number of a counted list takes up two bytes. -/
theorem length_counted (write : ρ → List UInt8) (raws : List ρ) :
    (counted write raws).length = 2 + (raws.flatMap write).length := by
  rw [counted, List.length_append, length_wordBytes]

/-- A number and as many members are a counted list that fits its number. -/
theorem exists_moves_count_iff {write : ρ → List UInt8} {raws : List ρ} {c d : Cursor} :
    (∃ n : UInt16, ∃ c₁, c.Moves (wordBytes n) c₁ ∧ raws.length = n.toNat ∧
        c₁.Moves (raws.flatMap write) d) ↔
      raws.length < 0x10000 ∧ c.Moves (counted write raws) d := by
  constructor
  · rintro ⟨n, c₁, h₁, hl, h₂⟩
    refine ⟨hl ▸ n.toNat_lt, ?_⟩
    rw [counted, hl, UInt16.ofNat_toNat]
    exact h₁.trans h₂
  · rintro ⟨hlt, h⟩
    obtain ⟨c₁, h₁, h₂⟩ := h.split
    exact ⟨_, c₁, h₁, (UInt16.toNat_ofNat_of_lt' hlt).symm, h₂⟩

/-- **A counted list is read as it is written**: its members are in place behind their number. -/
theorem Reader.exists_counted_iff {α : Type} {reader : Reader α} {write : ρ → List UInt8}
    {means : Nat → ρ → α → Prop} (hr : reader.Exact write means) {c d : Cursor} {as : List α} :
    (∃ n : UInt16, ∃ c₁, c.Moves (wordBytes n) c₁ ∧
        Parser.many reader n.toNat c₁ = .ok (as, d)) ↔
      ∃ raws, raws.length < 0x10000 ∧ Placed write means (c.offset + 2) raws as ∧
        c.Moves (counted write raws) d := by
  simp only [Reader.many_eq_ok_iff hr]
  constructor
  · rintro ⟨n, c₁, h₁, raws, hl, hp, h₂⟩
    obtain ⟨hlt, hm⟩ := exists_moves_count_iff.1 ⟨n, c₁, h₁, hl, h₂⟩
    rw [h₁.offset] at hp
    exact ⟨raws, hlt, hp, hm⟩
  · rintro ⟨raws, hlt, hp, hm⟩
    obtain ⟨n, c₁, h₁, hl, h₂⟩ := exists_moves_count_iff.2 ⟨hlt, hm⟩
    refine ⟨n, c₁, h₁, raws, hl, ?_, h₂⟩
    rw [h₁.offset]
    exact hp

end Counted

/-! ## Attributes -/

/-- An attribute as it is written. -/
structure RawAttribute where
  /-- The slot of its name. -/
  name : UInt16
  /-- Its contents. -/
  body : List UInt8
deriving DecidableEq

namespace RawAttribute

/-- The bytes of an attribute: the slot of its name, the length of its contents and the contents. -/
def bytes (raw : RawAttribute) : List UInt8 :=
  wordBytes raw.name ++ (longBytes (UInt32.ofNat raw.body.length) ++ raw.body)

/-- Written at offset `o`, `raw` stands for the attribute `a`. -/
structure Means (pool : ConstantPool) (o : Nat) (raw : RawAttribute) (a : FileAttribute) :
    Prop where
  /-- The contents fit their length word. -/
  short : raw.body.length < 0x100000000
  /-- The name is in its slot. -/
  name : pool.utf8 raw.name = .ok a.name
  /-- The contents stand behind name and length. -/
  offset : a.offset = o + 6
  /-- The contents are what is written. -/
  body : a.body = raw.body

/-- What stands in front of the contents takes up six bytes. -/
theorem length_bytes (raw : RawAttribute) : raw.bytes.length = 6 + raw.body.length := by
  simp only [bytes, List.length_append, length_wordBytes, length_longBytes]
  omega

/-- Other contents of the same length stand for the attribute with these contents. -/
theorem Means.withBody {pool : ConstantPool} {o : Nat} {raw : RawAttribute} {a : FileAttribute}
    (h : raw.Means pool o a) {body : List UInt8} (hl : body.length = raw.body.length) :
    Means pool o { raw with body } { a with body } :=
  ⟨hl ▸ h.short, h.name, h.offset, rfl⟩

end RawAttribute

/-- An attribute among others, which stay in place when its contents are exchanged for others of the
same length. -/
theorem Placed.exists_withBody {pool : ConstantPool} {o : Nat} {raws : List RawAttribute}
    {as₁ as₂ : List FileAttribute} {a : FileAttribute}
    (h : Placed RawAttribute.bytes (RawAttribute.Means pool) o raws (as₁ ++ a :: as₂)) :
    ∃ raws₁ raw raws₂, raws = raws₁ ++ raw :: raws₂ ∧
      RawAttribute.Means pool (o + (raws₁.flatMap RawAttribute.bytes).length) raw a ∧
      ∀ body, body.length = raw.body.length →
        Placed RawAttribute.bytes (RawAttribute.Means pool) o (raws₁ ++ { raw with body } :: raws₂)
          (as₁ ++ { a with body } :: as₂) := by
  obtain ⟨raws₁, raw, raws₂, rfl, h₁, hm, h₂⟩ := h.around
  refine ⟨raws₁, raw, raws₂, rfl, hm, fun body hl => h₁.append (.cons (hm.withBody hl) ?_)⟩
  have hlength : (RawAttribute.bytes { raw with body }).length = raw.bytes.length := by
    rw [RawAttribute.length_bytes, RawAttribute.length_bytes, hl]
  rwa [hlength]

namespace FileAttribute

/-- **Attributes are read as they are written.** -/
theorem read_exact (pool : ConstantPool) :
    (read pool).Exact RawAttribute.bytes (RawAttribute.Means pool) := by
  intro c a d
  simp only [read, Parser.bind_eq_ok_iff, Reader.u2_eq_ok_iff, Reader.u4_eq_ok_iff,
    Reader.ofExcept_eq_ok_iff, Reader.offset_eq_ok_iff, Reader.take_eq_ok_iff_moves,
    Parser.pure_eq_ok_iff]
  constructor
  · rintro ⟨index, c₁, h₁, name, _, ⟨hname, rfl⟩, length, c₂, h₂, o, _, ⟨rfl, rfl⟩, body, _,
      ⟨hl, h₃⟩, rfl, rfl⟩
    refine ⟨⟨index, body⟩, ⟨hl ▸ length.toNat_lt, hname, ?_, rfl⟩, h₁.trans (.trans ?_ h₃)⟩
    · rw [h₂.offset, h₁.offset, length_wordBytes, length_longBytes]
    · rwa [hl, UInt32.ofNat_toNat]
  · rintro ⟨⟨index, body⟩, ⟨hlt, hname, ho, hb⟩, hm⟩
    obtain ⟨c₁, h₁, hm⟩ := hm.split
    obtain ⟨c₂, h₂, h₃⟩ := hm.split
    refine ⟨index, c₁, h₁, a.name, c₁, ⟨hname, rfl⟩, _, c₂, h₂, c₂.offset, c₂, ⟨rfl, rfl⟩, body, d,
      ⟨(UInt32.toNat_ofNat_of_lt' hlt).symm, h₃⟩, ?_, rfl⟩
    have hoff : c₂.offset = a.offset := by
      rw [h₂.offset, h₁.offset, ho, length_wordBytes, length_longBytes]
    rw [hoff]
    cases a
    exact congrArg _ hb

/-- Many attributes, each taken account of right after it was read, are read first and taken account
of in order then, if nothing fails. -/
theorem fold_eq_ok_iff {σ : Type} {pool : ConstantPool}
    {step : σ → FileAttribute → Except ClassFileError σ} {n : Nat} {s s' : σ} {c d : Cursor} :
    fold pool step n s c = .ok (s', d) ↔
      ∃ as, Parser.many (read pool) n c = .ok (as, d) ∧ as.foldlM step s = .ok s' := by
  induction n generalizing s c with
  | zero =>
    simp only [fold, Parser.many, Parser.pure_eq_ok_iff]
    constructor
    · rintro ⟨rfl, rfl⟩
      exact ⟨[], ⟨rfl, rfl⟩, rfl⟩
    · rintro ⟨_, ⟨rfl, rfl⟩, h⟩
      cases h
      exact ⟨rfl, rfl⟩
  | succ n ih =>
    simp only [fold, Parser.many, Parser.bind_eq_ok_iff, Reader.ofExcept_eq_ok_iff,
      Parser.pure_eq_ok_iff, ih]
    constructor
    · rintro ⟨a, c₁, ha, s₁, _, ⟨hs, rfl⟩, as, has, hfold⟩
      refine ⟨a :: as, ⟨a, _, ha, as, d, has, rfl, rfl⟩, ?_⟩
      rw [List.foldlM_cons, hs]
      exact hfold
    · rintro ⟨_, ⟨a, c₁, ha, as, _, has, rfl, rfl⟩, hfold⟩
      obtain ⟨s₁, hs, hfold⟩ := bind_eq_ok_iff.1 hfold
      exact ⟨a, c₁, ha, s₁, c₁, ⟨hs, rfl⟩, as, has, hfold⟩

/-- Attributes behind their number, each taken account of, are read as they are written. -/
theorem exists_counted_iff {σ : Type} {pool : ConstantPool}
    {step : σ → FileAttribute → Except ClassFileError σ} {s s' : σ} {c d : Cursor} :
    (∃ n : UInt16, ∃ c₁, c.Moves (wordBytes n) c₁ ∧ fold pool step n.toNat s c₁ = .ok (s', d)) ↔
      ∃ raws as, raws.length < 0x10000 ∧
        Placed RawAttribute.bytes (RawAttribute.Means pool) (c.offset + 2) raws as ∧
        as.foldlM step s = .ok s' ∧ c.Moves (counted RawAttribute.bytes raws) d := by
  simp only [fold_eq_ok_iff]
  constructor
  · rintro ⟨n, c₁, h₁, as, hmany, hfold⟩
    obtain ⟨raws, hlt, hp, hm⟩ := (Reader.exists_counted_iff (read_exact pool)).1 ⟨n, c₁, h₁, hmany⟩
    exact ⟨raws, as, hlt, hp, hfold, hm⟩
  · rintro ⟨raws, as, hlt, hp, hfold, hm⟩
    obtain ⟨n, c₁, h₁, hmany⟩ := (Reader.exists_counted_iff (read_exact pool)).2 ⟨raws, hlt, hp, hm⟩
    exact ⟨n, c₁, h₁, as, hmany, hfold⟩

/-! ### Code -/

/-- What may follow the code in a code attribute: handlers of eight bytes each, then attributes. -/
def CodeTail (tail : List UInt8) : Prop :=
  ∃ (handlers : UInt16) (table : List UInt8) (raws : List RawAttribute),
    table.length = 8 * handlers.toNat ∧ raws.length < 0x10000 ∧
      (∀ raw ∈ raws, raw.body.length < 0x100000000) ∧
      tail = wordBytes handlers ++ (table ++ counted RawAttribute.bytes raws)

/-- An attribute is passed over as it is written. -/
theorem skip_exact :
    Reader.Exact (do Reader.skip 2; Reader.skip (← Reader.u4).toNat) RawAttribute.bytes
      fun _ raw (_ : Unit) => raw.body.length < 0x100000000 := by
  intro c u d
  simp only [Parser.bind_eq_ok_iff, Reader.skip_eq_ok_iff, Reader.u4_eq_ok_iff]
  constructor
  · rintro ⟨-, c₁, ⟨name, hn, h₁⟩, length, c₂, h₂, body, hl, h₃⟩
    rw [← wordBytes_ofNat_bigEndian hn] at h₁
    rw [← UInt32.ofNat_toNat (x := length), ← hl] at h₂
    exact ⟨⟨_, body⟩, hl ▸ length.toNat_lt, h₁.trans (h₂.trans h₃)⟩
  · rintro ⟨⟨name, body⟩, hlt, hm⟩
    obtain ⟨c₁, h₁, hm⟩ := hm.split
    obtain ⟨c₂, h₂, h₃⟩ := hm.split
    exact ⟨(), c₁, ⟨_, rfl, h₁⟩, _, c₂, h₂, body, (UInt32.toNat_ofNat_of_lt' hlt).symm, h₃⟩

/-- Members that only have to be well-formed are in place if they are. -/
theorem placed_unit_iff {ρ : Type} {write : ρ → List UInt8} {p : ρ → Prop} {o : Nat}
    {raws : List ρ} {us : List Unit} :
    Placed write (fun _ raw (_ : Unit) => p raw) o raws us ↔
      raws.length = us.length ∧ ∀ raw ∈ raws, p raw := by
  constructor
  · intro h
    refine ⟨h.length_eq, ?_⟩
    induction h with
    | nil => simp
    | cons head _ ih => exact List.forall_mem_cons.2 ⟨head, ih⟩
  · rintro ⟨hl, hp⟩
    induction raws generalizing o us with
    | nil =>
      cases us with
      | nil => exact .nil o
      | cons u us => cases hl
    | cons raw raws ih =>
      cases us with
      | nil => cases hl
      | cons u us =>
        have h := List.forall_mem_cons.1 hp
        exact .cons h.1 (ih (Nat.succ.inj hl) h.2)

/-- The code in the contents of a code attribute: four bytes, the length of the code, the code and
what may follow it. -/
theorem readCode_eq_ok_iff {c d : Cursor} {span : Span} :
    readCode c = .ok (span, d) ↔
      ∃ frame code tail, frame.length = 4 ∧ code.length < 0x100000000 ∧
        (∃ n, Code.count code = .ok n) ∧ CodeTail tail ∧ span = ⟨c.offset + 8, code.length⟩ ∧
        c.Moves (frame ++ (longBytes (UInt32.ofNat code.length) ++ (code ++ tail))) d := by
  simp only [readCode, Parser.bind_eq_ok_iff, Reader.skip_eq_ok_iff, Reader.u2_eq_ok_iff,
    Reader.u4_eq_ok_iff, Reader.ofExcept_eq_ok_iff, Reader.offset_eq_ok_iff,
    Reader.take_eq_ok_iff_moves, Parser.pure_eq_ok_iff]
  constructor
  · rintro ⟨-, c₁, ⟨frame, hf, h₁⟩, length, c₂, h₂, start, _, ⟨rfl, rfl⟩, code, c₃, ⟨hl, h₃⟩,
      n, _, ⟨hn, rfl⟩, handlers, c₄, h₄, -, c₅, ⟨table, ht, h₅⟩, k, c₆, h₆, us, c₇, h₇, rfl, rfl⟩
    obtain ⟨raws, hlt, hplaced, h₈⟩ := (Reader.exists_counted_iff skip_exact).1 ⟨k, c₆, h₆, h₇⟩
    refine ⟨frame, code, _, hf, hl ▸ length.toNat_lt, ⟨n, hn⟩,
      ⟨handlers, table, raws, ht, hlt, (placed_unit_iff.1 hplaced).2, rfl⟩, ?_, ?_⟩
    · rw [h₂.offset, h₁.offset, hf, length_longBytes, hl]
    · refine h₁.trans (Cursor.Moves.trans ?_ (h₃.trans (h₄.trans (h₅.trans h₈))))
      rwa [hl, UInt32.ofNat_toNat]
  · rintro ⟨frame, code, _, hf, hlt, ⟨n, hn⟩, ⟨handlers, table, raws, ht, hk, hraws, rfl⟩, rfl, hm⟩
    obtain ⟨c₁, h₁, hm⟩ := hm.split
    obtain ⟨c₂, h₂, hm⟩ := hm.split
    obtain ⟨c₃, h₃, hm⟩ := hm.split
    obtain ⟨c₄, h₄, hm⟩ := hm.split
    obtain ⟨c₅, h₅, hm⟩ := hm.split
    have hplaced : Placed RawAttribute.bytes (fun _ raw (_ : Unit) => raw.body.length < 0x100000000)
        (c₅.offset + 2) raws (List.replicate raws.length ()) :=
      placed_unit_iff.2 ⟨List.length_replicate.symm, hraws⟩
    obtain ⟨k, c₆, h₆, h₇⟩ := (Reader.exists_counted_iff skip_exact).2 ⟨raws, hk, hplaced, hm⟩
    have hlen : (UInt32.ofNat code.length).toNat = code.length := UInt32.toNat_ofNat_of_lt' hlt
    refine ⟨(), c₁, ⟨frame, hf, h₁⟩, _, c₂, h₂, _, c₂, ⟨rfl, rfl⟩, code, c₃, ⟨hlen.symm, h₃⟩, n, c₃,
      ⟨hn, rfl⟩, handlers, c₄, h₄, (), c₅, ⟨table, ht, h₅⟩, k, c₆, h₆, _, d, h₇, ?_, rfl⟩
    rw [h₂.offset, h₁.offset, hf, length_longBytes, hlen]

/-- **Where the code of a code attribute stands.** -/
theorem codeSpan_eq_ok_iff {a : FileAttribute} {span : Span} :
    a.codeSpan = .ok span ↔
      ∃ frame code tail, frame.length = 4 ∧ code.length < 0x100000000 ∧
        (∃ n, Code.count code = .ok n) ∧ CodeTail tail ∧ span = ⟨a.offset + 8, code.length⟩ ∧
        a.body = frame ++ (longBytes (UInt32.ofNat code.length) ++ (code ++ tail)) := by
  constructor
  · intro h
    rw [codeSpan] at h
    split at h
    · next s d hread =>
      split at h
      · next hempty =>
        cases h
        obtain ⟨frame, code, tail, hf, hl, hn, ht, hs, hm⟩ := readCode_eq_ok_iff.1 hread
        refine ⟨frame, code, tail, hf, hl, hn, ht, hs, ?_⟩
        have ha := hm.ahead
        rwa [List.isEmpty_iff.1 hempty, List.append_nil] at ha
      · cases h
    · cases h
    · cases h
  · rintro ⟨frame, code, tail, hf, hl, hn, ht, hs, hb⟩
    have hread : readCode a.contents = .ok (span, ⟨a.offset + a.body.length, []⟩) := by
      refine readCode_eq_ok_iff.2 ⟨frame, code, tail, hf, hl, hn, ht, hs, ?_, ?_⟩
      · rw [List.append_nil]
        exact hb
      · rw [← hb]
        rfl
    rw [codeSpan, hread]
    rfl

end FileAttribute

/-! ### Inner classes -/

/-- An inner class as it is written. -/
structure RawInnerClass where
  /-- The slot of the class. -/
  name : UInt16
  /-- The slot of the class it is a member of, or zero. -/
  outer : UInt16
  /-- The slot of its name in the source text, or zero. -/
  simpleName : UInt16
  /-- Its flag word. -/
  flags : Flags
deriving DecidableEq

namespace RawInnerClass

/-- The eight bytes of an inner class. -/
def bytes (raw : RawInnerClass) : List UInt8 :=
  wordBytes raw.name ++ (wordBytes raw.outer ++ (wordBytes raw.simpleName ++ wordBytes raw.flags))

/-- Written at offset `o`, `raw` stands for the inner class `i`. -/
structure Means (pool : ConstantPool) (o : Nat) (raw : RawInnerClass) (i : InnerClass) : Prop where
  /-- The name of the class is in its slot. -/
  name : pool.className raw.name = .ok i.name
  /-- So is the name of the class it is a member of, if there is one. -/
  outer : FileAttribute.optionally pool.className raw.outer = .ok i.outer
  /-- So is its name in the source text, if there is one. -/
  simpleName : FileAttribute.optionally pool.utf8 raw.simpleName = .ok i.simpleName
  /-- The flag word is what is written. -/
  flags : i.flags = raw.flags
  /-- The flag word stands behind the three slots. -/
  offset : i.flagsOffset = o + 6

/-- An inner class has eight bytes. -/
theorem length_bytes (raw : RawInnerClass) : raw.bytes.length = 8 := rfl

end RawInnerClass

namespace FileAttribute

/-- Inner classes are read as they are written. -/
theorem readInnerClass_exact (pool : ConstantPool) :
    (readInnerClass pool).Exact RawInnerClass.bytes (RawInnerClass.Means pool) := by
  intro c i d
  simp only [readInnerClass, Parser.bind_eq_ok_iff, Reader.u2_eq_ok_iff, Reader.ofExcept_eq_ok_iff,
    Reader.offset_eq_ok_iff, Parser.pure_eq_ok_iff]
  constructor
  · rintro ⟨n, c₁, h₁, name, _, ⟨hname, rfl⟩, o, c₂, h₂, outer, _, ⟨houter, rfl⟩, s, c₃, h₃,
      simpleName, _, ⟨hsimple, rfl⟩, at_, _, ⟨rfl, rfl⟩, flags, c₄, h₄, rfl, rfl⟩
    refine ⟨⟨n, o, s, flags⟩, ⟨hname, houter, hsimple, rfl, ?_⟩, h₁.trans (h₂.trans (h₃.trans h₄))⟩
    rw [h₃.offset, h₂.offset, h₁.offset]
    rfl
  · rintro ⟨⟨n, o, s, flags⟩, ⟨hname, houter, hsimple, hflags, hoff⟩, hm⟩
    obtain ⟨c₁, h₁, hm⟩ := hm.split
    obtain ⟨c₂, h₂, hm⟩ := hm.split
    obtain ⟨c₃, h₃, h₄⟩ := hm.split
    refine ⟨n, c₁, h₁, i.name, c₁, ⟨hname, rfl⟩, o, c₂, h₂, i.outer, c₂, ⟨houter, rfl⟩, s, c₃, h₃,
      i.simpleName, c₃, ⟨hsimple, rfl⟩, c₃.offset, c₃, ⟨rfl, rfl⟩, flags, d, h₄, ?_, rfl⟩
    have ho : c₃.offset = i.flagsOffset := by
      rw [h₃.offset, h₂.offset, h₁.offset, hoff]
      rfl
    rw [ho]
    cases i
    cases hflags
    rfl

/-- Inner classes take up eight bytes each. -/
theorem length_flatMap_innerClass (raws : List RawInnerClass) :
    (raws.flatMap RawInnerClass.bytes).length = 8 * raws.length := by
  induction raws with
  | nil => rfl
  | cons raw raws ih =>
    rw [List.flatMap_cons, List.length_append, ih, RawInnerClass.length_bytes, List.length_cons]
    omega

/-- **The inner classes in an attribute.** -/
theorem innerClasses_eq_ok_iff {pool : ConstantPool} {a : FileAttribute} {is : List InnerClass} :
    a.innerClasses pool = .ok is ↔
      ∃ raws : List RawInnerClass, raws.length < 0x10000 ∧
        Placed RawInnerClass.bytes (RawInnerClass.Means pool) (a.offset + 2) raws is ∧
        a.body = counted RawInnerClass.bytes raws := by
  constructor
  · intro h
    rw [innerClasses] at h
    split at h
    · cases h
    · next count c hcount =>
      rw [Reader.u2_eq_ok_iff] at hcount
      simp only at h
      split at h
      · next hlen =>
        obtain ⟨p, hmany, rfl⟩ := map_eq_ok_iff.1 h
        obtain ⟨raws, hl, hp, hm⟩ :=
          (Reader.many_eq_ok_iff (readInnerClass_exact pool) _).1 hmany
        obtain ⟨hlt, hall⟩ := exists_moves_count_iff.1 ⟨count, c, hcount, hl, hm⟩
        refine ⟨raws, hlt, ?_, ?_⟩
        · have ho := hcount.offset
          rw [length_wordBytes] at ho
          exact ho ▸ hp
        · -- the length that was checked leaves nothing behind the last inner class
          have hb : a.body = counted RawInnerClass.bytes raws ++ p.2.ahead := hall.ahead
          have hrest : p.2.ahead = [] := by
            have hbl := congrArg List.length hb
            rw [List.length_append, length_counted, length_flatMap_innerClass, hlen, hl] at hbl
            exact List.length_eq_zero_iff.1 (by omega)
          rw [hb, hrest, List.append_nil]
      · cases h
  · rintro ⟨raws, hlt, hp, hb⟩
    have hm : a.contents.Moves (counted RawInnerClass.bytes raws)
        ⟨a.offset + a.body.length, []⟩ := by
      refine ⟨?_, by rw [← hb]; rfl⟩
      rw [List.append_nil]
      exact hb
    obtain ⟨count, c, h₁, hl, h₂⟩ := exists_moves_count_iff.2 ⟨hlt, hm⟩
    have hmany : Parser.many (readInnerClass pool) count.toNat c =
        .ok (is, ⟨a.offset + a.body.length, []⟩) := by
      refine (Reader.many_eq_ok_iff (readInnerClass_exact pool) _).2 ⟨raws, hl, ?_, h₂⟩
      rw [h₁.offset]
      exact hp
    have hlen : a.body.length = 2 + 8 * count.toNat := by
      rw [hb, length_counted, length_flatMap_innerClass, hl]
    rw [innerClasses, Reader.u2_eq_ok_iff.2 h₁]
    simp only [if_pos hlen, hmany]
    rfl

end FileAttribute

/-! ## Attributes of one name -/

section Named

variable {σ : Type} {name : String} {g : FileAttribute → Except ClassFileError σ}

/-- An attribute is taken account of if it is good or has another name. -/
theorem exists_named_step {a : FileAttribute} (h : a.name = name → ∃ t, g a = .ok t) (s : σ) :
    ∃ s', (if a.name = name then g a else .ok s) = .ok s' := by
  by_cases hname : a.name = name
  · rw [if_pos hname]
    exact h hname
  · exact ⟨s, if_neg hname⟩

/-- Attributes are taken account of if those of the name are good, and not otherwise. -/
theorem exists_foldlM_named_iff {as : List FileAttribute} {s : σ} :
    (∃ s', as.foldlM (fun s a => if a.name = name then g a else .ok s) s = .ok s') ↔
      ∀ a ∈ as, a.name = name → ∃ t, g a = .ok t := by
  induction as generalizing s with
  | nil => exact ⟨fun _ => by simp, fun _ => ⟨s, rfl⟩⟩
  | cons a as ih =>
    simp only [List.foldlM_cons, bind_eq_ok_iff]
    constructor
    · rintro ⟨s', s₁, hs₁, hs'⟩
      refine List.forall_mem_cons.2 ⟨fun hname => ⟨s₁, ?_⟩, ih.1 ⟨s', hs'⟩⟩
      rwa [if_pos hname] at hs₁
    · intro h
      obtain ⟨ha, has⟩ := List.forall_mem_cons.1 h
      obtain ⟨s₁, hs₁⟩ := exists_named_step ha s
      obtain ⟨s', hs'⟩ := (@ih s₁).2 has
      exact ⟨s', s₁, hs₁, hs'⟩

/-- **The last attribute of a name decides**, if all attributes of the name are good.

**Proof sketch.** Induction on the attributes. The outcome of the first one counts only if there is
no further one of the name, but it has to be there in any case. -/
theorem foldlM_named_eq_ok_iff {as : List FileAttribute} {s s' : σ} :
    as.foldlM (fun s a => if a.name = name then g a else .ok s) s = .ok s' ↔
      (∀ a ∈ as, a.name = name → ∃ t, g a = .ok t) ∧
        (((∀ a ∈ as, a.name ≠ name) ∧ s' = s) ∨
          ∃ as₁ a as₂, as = as₁ ++ a :: as₂ ∧ a.name = name ∧ g a = .ok s' ∧
            ∀ b ∈ as₂, b.name ≠ name) := by
  constructor
  · intro h
    refine ⟨exists_foldlM_named_iff.1 ⟨s', h⟩, ?_⟩
    induction as generalizing s with
    | nil =>
      cases h
      exact .inl ⟨by simp, rfl⟩
    | cons a as ih =>
      rw [List.foldlM_cons, bind_eq_ok_iff] at h
      obtain ⟨s₁, hs, h⟩ := h
      rcases ih h with ⟨hnone, rfl⟩ | ⟨as₁, b, as₂, rfl, hb⟩
      · by_cases ha : a.name = name
        · rw [if_pos ha] at hs
          exact .inr ⟨[], a, as, rfl, ha, hs, hnone⟩
        · rw [if_neg ha] at hs
          cases hs
          exact .inl ⟨List.forall_mem_cons.2 ⟨ha, hnone⟩, rfl⟩
      · exact .inr ⟨a :: as₁, b, as₂, rfl, hb⟩
  · rintro ⟨hgood, hlast⟩
    induction as generalizing s with
    | nil =>
      rcases hlast with ⟨-, rfl⟩ | ⟨as₁, a, as₂, h, -⟩
      · rfl
      · cases as₁ <;> cases h
    | cons a as ih =>
      obtain ⟨ha, hgood⟩ := List.forall_mem_cons.1 hgood
      obtain ⟨s₁, hs⟩ := exists_named_step ha s
      rw [List.foldlM_cons, bind_eq_ok_iff]
      refine ⟨s₁, hs, ih hgood ?_⟩
      rcases hlast with ⟨hnone, rfl⟩ | ⟨_ | ⟨b, as₁⟩, a', as₂, h, ha', hga', hrest⟩
      · obtain ⟨ha, hnone⟩ := List.forall_mem_cons.1 hnone
        rw [if_neg ha] at hs
        cases hs
        exact .inl ⟨hnone, rfl⟩
      · cases h
        rw [if_pos ha', hga'] at hs
        cases hs
        exact .inl ⟨hrest, rfl⟩
      · cases h
        exact .inr ⟨as₁, a', as₂, rfl, ha', hga', hrest⟩

/-- Either there is no attribute of a name, or the outcome is that of one of them, and another
attribute of the name in its stead would give its own outcome. -/
theorem foldlM_named {as : List FileAttribute} {s s' : σ}
    (h : as.foldlM (fun s a => if a.name = name then g a else .ok s) s = .ok s') :
    ((∀ a ∈ as, a.name ≠ name) ∧ s' = s) ∨
      ∃ as₁ a as₂, as = as₁ ++ a :: as₂ ∧ a.name = name ∧ g a = .ok s' ∧
        ∀ b t, b.name = name → g b = .ok t →
          (as₁ ++ b :: as₂).foldlM (fun s a => if a.name = name then g a else .ok s) s = .ok t := by
  obtain ⟨hgood, hnone | ⟨as₁, a, as₂, rfl, ha, hga, hrest⟩⟩ := foldlM_named_eq_ok_iff.1 h
  · exact .inl hnone
  · refine .inr ⟨as₁, a, as₂, rfl, ha, hga, fun b t hb hgb => ?_⟩
    refine foldlM_named_eq_ok_iff.2 ⟨fun d hd hname => ?_, .inr ⟨as₁, b, as₂, rfl, hb, hgb, hrest⟩⟩
    rcases List.mem_append.1 hd with hd | hd
    · exact hgood d (List.mem_append_left _ hd) hname
    · rcases List.mem_cons.1 hd with rfl | hd
      · exact ⟨t, hgb⟩
      · exact absurd hname (hrest d hd)

end Named

end ClassAccess
