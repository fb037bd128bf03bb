import ClassAccess.Proofs.ClassFile.Layout

/-!
# Cut off and overlong class files

A class file tells where it ends. Of every byte string that is read as a class, each shorter part
from the start on is refused because it ends too early, and each extension because something follows
the class; so no class file starts with another one.

## Main definitions

* `Reader.Reads` — a reader reads some bytes, leaves alone what follows, and notices if they are cut
  off.
* `Reader.Streams` — a reader that does so wherever it succeeds.

## Main results

* `Reader.Streams.bind`, `Reader.Streams.many` — readers that are put together stream if their parts
  do.
* `ConstantPool.streams_read`, `FileAttribute.streams_fold`, `Reader.streams_member` — the readers
  of the parts of a class stream.
* `ClassFile.streams_readClass` — and so does that of a class.
* `ClassFile.read_take_and_append` — what becomes of a class file that is cut off or extended.

## Design

Whether a reader streams is a property of the reader alone. The contents of attributes are looked
into only after they were taken as a whole; what is wrong inside them is an outcome that does not
depend on the cursor, and a cut through them is noticed when they are taken.
-/

set_option autoImplicit false

namespace ClassAccess

namespace Reader

variable {α β : Type}

/-- Started at offset `o`, the reader reads exactly `bytes` and gives `a`. -/
structure Reads (reader : Reader α) (o : Nat) (bytes : List UInt8) (a : α) : Prop where
  /-- What follows the bytes is left alone. -/
  whole : ∀ rest, reader ⟨o, bytes ++ rest⟩ = .ok (a, ⟨o + bytes.length, rest⟩)
  /-- If only the first `k` bytes are there, the reader says that bytes are missing. The part that
  misses them starts in front of the cut, and it does not miss more than was cut off. -/
  cut : ∀ k < bytes.length, ∃ offset needed,
    reader ⟨o, bytes.take k⟩ = .error (.unexpectedEof offset needed) ∧ offset ≤ o + k ∧
      1 ≤ needed ∧ needed ≤ bytes.length - k

/-- Wherever the reader succeeds, it reads the bytes that it moves over. -/
def Streams (reader : Reader α) : Prop :=
  ∀ (c : Cursor) (a : α) (d : Cursor), reader c = .ok (a, d) →
    ∃ bytes, c.Moves bytes d ∧ reader.Reads c.offset bytes a

/-- What does not move reads no bytes. -/
theorem Reads.nil {reader : Reader α} {o : Nat} {a : α}
    (h : ∀ rest, reader ⟨o, rest⟩ = .ok (a, ⟨o, rest⟩)) : reader.Reads o [] a :=
  ⟨h, fun _ hk => absurd hk (Nat.not_lt_zero _)⟩

/-- Reading on where another reader stopped. -/
theorem Reads.bind {reader : Reader α} {f : α → Reader β} {o : Nat} {x y : List UInt8} {a : α}
    {b : β} (hx : reader.Reads o x a) (hy : (f a).Reads (o + x.length) y b) :
    (reader >>= f).Reads o (x ++ y) b := by
  constructor
  · intro rest
    rw [Parser.bind_apply, List.append_assoc, hx.whole, List.length_append, ← Nat.add_assoc]
    exact hy.whole rest
  · intro k hk
    rw [List.length_append] at hk ⊢
    by_cases hkx : k < x.length
    · -- the cut is in what the first reader reads
      obtain ⟨offset, needed, hcut, hoffset, hpos, hneeded⟩ := hx.cut k hkx
      refine ⟨offset, needed, ?_, hoffset, hpos, by omega⟩
      rw [Parser.bind_apply, List.take_append_of_le_length (Nat.le_of_lt hkx), hcut]
      rfl
    · -- the first reader reads all of its bytes, and the cut is in those of the second one
      obtain ⟨offset, needed, hcut, hoffset, hpos, hneeded⟩ := hy.cut (k - x.length) (by omega)
      refine ⟨offset, needed, ?_, by omega, hpos, by omega⟩
      have htake : (x ++ y).take k = x ++ y.take (k - x.length) := by
        rw [List.take_append, List.take_of_length_le (by omega)]
      rw [Parser.bind_apply, htake, hx.whole]
      exact hcut

namespace Streams

/-- What succeeds without reading streams. -/
theorem pure (a : α) : Streams (Pure.pure a) := by
  intro c b d h
  obtain ⟨rfl, rfl⟩ := Parser.pure_eq_ok_iff.1 h
  exact ⟨[], .refl d, .nil fun _ => rfl⟩

/-- What always fails streams. -/
theorem throw (e : ClassFileError) : Streams (MonadExcept.throw e : Reader α) :=
  fun _ _ _ h => absurd h Parser.throw_ne_ok

/-- An outcome that does not depend on the cursor streams. -/
theorem ofExcept (x : Except ClassFileError α) : Streams (Reader.ofExcept x) := by
  intro c a d h
  obtain ⟨rfl, rfl⟩ := ofExcept_eq_ok_iff.1 h
  exact ⟨[], .refl d, .nil fun _ => rfl⟩

/-- Asking for the place of the cursor streams. -/
theorem offset : Streams Reader.offset := by
  intro c o d h
  obtain ⟨rfl, rfl⟩ := offset_eq_ok_iff.1 h
  exact ⟨[], .refl d, .nil fun _ => rfl⟩

/-- **Taking bytes streams**: it misses as many bytes as there are too few. -/
theorem take (n : Nat) : Streams (Reader.take n) := by
  intro c body d h
  obtain ⟨rfl, hm⟩ := take_eq_ok_iff_moves.1 h
  refine ⟨body, hm, fun rest => take_append c.offset body rest, fun k hk => ?_⟩
  refine ⟨c.offset, body.length - k, ?_, by omega, by omega, by omega⟩
  have hshort : ((body.take k).take body.length).length = k := by
    rw [List.length_take, List.length_take]
    omega
  simp only [Reader.take, hshort, if_neg (Nat.ne_of_lt hk)]

/-- **Two readers in a row stream if each of them does.** -/
theorem bind {reader : Reader α} {f : α → Reader β} (h : reader.Streams)
    (hf : ∀ a, (f a).Streams) : (reader >>= f).Streams := by
  intro c b d hb
  obtain ⟨a, c₁, ha, hb⟩ := Parser.bind_eq_ok_iff.1 hb
  obtain ⟨x, hx, hreads⟩ := h c a c₁ ha
  obtain ⟨y, hy, hreads'⟩ := hf a c₁ b d hb
  refine ⟨x ++ y, hx.trans hy, hreads.bind ?_⟩
  rw [← hx.offset]
  exact hreads'

/-- A check that may fail streams if what follows it does. -/
theorem guarded {p : Prop} [Decidable p] {e : ClassFileError} {rest : PUnit → Reader α}
    (h : ∀ u, (rest u).Streams) :
    Streams (if p then MonadExcept.throw e >>= rest else rest ⟨⟩) := by
  split
  · exact (throw e).bind h
  · exact h ⟨⟩

/-- A byte streams. -/
theorem u1 : Streams Reader.u1 := (take 1).bind fun _ => pure _

/-- A word streams. -/
theorem u2 : Streams Reader.u2 := (take 2).bind fun _ => pure _

/-- A long word streams. -/
theorem u4 : Streams Reader.u4 := (take 4).bind fun _ => pure _

/-- Passing over bytes streams. -/
theorem skip (n : Nat) : Streams (Reader.skip n) := (take n).bind fun _ => pure _

/-- **A reader that is run many times streams if it does so once.** -/
theorem many {reader : Reader α} (h : reader.Streams) (n : Nat) :
    Streams (Parser.many reader n) := by
  induction n with
  | zero => exact pure []
  | succ n ih => exact h.bind fun _ => ih.bind fun _ => pure _

end Streams

end Reader

open Reader

/-! ## The parts of a class -/

/-- An entry of a constant pool streams, whatever its tag is. -/
theorem Constant.streams_read (index : Nat) : (read index).Streams := by
  refine Streams.u1.bind fun tag => ?_
  have hreference : ∀ make : UInt16 → UInt16 → Constant,
      Streams (do return make (← u2) (← u2)) :=
    fun make => Streams.u2.bind fun _ => Streams.u2.bind fun _ => .pure _
  split
  · refine Streams.u2.bind fun length => (Streams.take _).bind fun encoded => ?_
    split
    · exact .pure _
    · exact .throw _
  · exact Streams.u2.bind fun _ => .pure _
  · exact hreference _
  · exact hreference _
  · exact hreference _
  · exact hreference _
  · split
    · exact (Streams.skip _).bind fun _ => .pure _
    · exact .throw _

namespace ConstantPool

/-- The slots of a constant pool stream. -/
theorem streams_readSlots (n index : Nat) (taken : Bool) : (readSlots n index taken).Streams := by
  induction n generalizing index taken with
  | zero => exact .pure _
  | succ n ih =>
    cases taken with
    | true => exact (ih _ _).bind fun _ => .pure _
    | false => exact (Constant.streams_read index).bind fun k => (ih _ _).bind fun _ => .pure _

/-- A constant pool streams. -/
theorem streams_read : read.Streams :=
  Streams.u2.bind fun _ => (streams_readSlots _ _ _).bind fun _ => .pure _

end ConstantPool

namespace FileAttribute

variable (pool : ConstantPool)

/-- An attribute streams: its contents are taken as a whole. -/
theorem streams_read : (read pool).Streams :=
  Streams.u2.bind fun _ => (Streams.ofExcept _).bind fun _ => Streams.u4.bind fun _ =>
    Streams.offset.bind fun _ => (Streams.take _).bind fun _ => .pure _

/-- Attributes that are taken account of one after the other stream. -/
theorem streams_fold {σ : Type} (step : σ → FileAttribute → Except ClassFileError σ) (n : Nat)
    (s : σ) : (fold pool step n s).Streams := by
  induction n generalizing s with
  | zero => exact .pure s
  | succ n ih => exact (streams_read pool).bind fun a => (Streams.ofExcept _).bind fun s => ih s

end FileAttribute

/-- A member of a class streams. -/
theorem Reader.streams_member {σ α : Type} (pool : ConstantPool) (kind : MemberKind)
    (isDescriptor : List Char → Bool) (step : σ → FileAttribute → Except ClassFileError σ)
    (start : σ) (make : Flags → Nat → String → String → σ → α) :
    (member pool kind isDescriptor step start make).Streams := by
  refine Streams.offset.bind fun _ => Streams.u2.bind fun _ => Streams.u2.bind fun _ => ?_
  refine (Streams.ofExcept _).bind fun _ => Streams.u2.bind fun _ => ?_
  refine (Streams.ofExcept _).bind fun _ => .guarded fun _ => Streams.u2.bind fun _ => ?_
  exact (FileAttribute.streams_fold pool step _ start).bind fun _ => .pure _

/-! ## Classes -/

namespace ClassFile

/-- The version streams. -/
theorem streams_readVersion : readVersion.Streams :=
  Streams.u4.bind fun _ => .guarded fun _ => Streams.u2.bind fun _ => Streams.u2.bind fun _ =>
    .guarded fun _ => .pure _

/-- **A class streams.** -/
theorem streams_readClass (bytes : List UInt8) : (readClass bytes).Streams := by
  refine streams_readVersion.bind fun ⟨minor, major⟩ => ?_
  refine ConstantPool.streams_read.bind fun pool => Streams.offset.bind fun _ => ?_
  have hfields : (Field.read pool).Streams := Reader.streams_member pool _ _ _ _ _
  have hmethods : (Method.read pool).Streams := Reader.streams_member pool _ _ _ _ _
  refine Streams.u2.bind fun _ => Streams.u2.bind fun _ => (Streams.ofExcept _).bind fun _ => ?_
  refine Streams.u2.bind fun _ => (Streams.ofExcept _).bind fun _ => Streams.u2.bind fun _ => ?_
  refine (Streams.many (Streams.u2.bind fun _ => .ofExcept _) _).bind fun _ => ?_
  refine Streams.u2.bind fun _ => (hfields.many _).bind fun _ => ?_
  refine Streams.u2.bind fun _ => (hmethods.many _).bind fun _ => ?_
  exact Streams.u2.bind fun _ => (FileAttribute.streams_fold pool _ _ _).bind fun _ => .pure _

/-- What a class is read as does not depend on the file that it is said to be from. -/
theorem readClass_of_bytes {bytes ahead : List UInt8} {c : ClassFile} {d : Cursor}
    (h : readClass bytes ⟨0, ahead⟩ = .ok (c, d)) (bytes' : List UInt8) :
    readClass bytes' ⟨0, ahead⟩ = .ok ({ c with bytes := bytes' }, d) := by
  obtain ⟨raw, hmeans, -, hm⟩ := readClass_eq_ok_iff.1 h
  refine readClass_eq_ok_iff.2 ⟨raw, ?_, rfl, hm⟩
  exact { hmeans with }

/-- The reader of classes reads all bytes of a class file, wherever it is told that they are
from. -/
theorem reads_of_read {file : List UInt8} {c : ClassFile} (h : read file = .ok c)
    (bytes : List UInt8) : (readClass bytes).Reads 0 file { c with bytes := bytes } := by
  have hclass : ∃ o, readClass file ⟨0, file⟩ = .ok (c, ⟨o, []⟩) := by
    rw [read] at h
    split at h
    · cases h
    · next c' o hread =>
      cases h
      exact ⟨o, hread⟩
    · cases h
  obtain ⟨o, hclass⟩ := hclass
  obtain ⟨x, hm, hreads⟩ := streams_readClass bytes _ _ _ (readClass_of_bytes hclass bytes)
  have hx : file = x := hm.ahead.trans (List.append_nil x)
  rw [hx]
  exact hreads

/-- **A class file that is cut off or extended is refused for that reason.** If only its first `k`
bytes are there, a part that starts among them misses some bytes, and no more than were cut off; and
what follows a class file is counted.

**Proof sketch.** The reader of classes streams, since all readers that it is put together from do.
Where the bytes are cut off, all parts in front of the cut are read as before, so that no other
defect can be found first. -/
theorem read_take_and_append {file : List UInt8} {c : ClassFile} (h : read file = .ok c) :
    (∀ k < file.length, ∃ offset needed,
      read (file.take k) = .error (.unexpectedEof offset needed) ∧ offset ≤ k ∧ 1 ≤ needed ∧
        needed ≤ file.length - k) ∧
    ∀ rest, rest ≠ [] → read (file ++ rest) = .error (.trailingBytes rest.length) := by
  constructor
  · intro k hk
    obtain ⟨offset, needed, hcut, hoffset, hneeded⟩ := (reads_of_read h (file.take k)).cut k hk
    refine ⟨offset, needed, ?_, by omega, hneeded⟩
    rw [read, hcut]
  · intro rest hrest
    have hwhole := (reads_of_read h (file ++ rest)).whole rest
    cases rest with
    | nil => exact absurd rfl hrest
    | cons b rest => rw [read, hwhole]

/-- The small class cut off and extended. -/
theorem read_take_and_append_sample :
    read Sample.file = .ok Sample.parsed ∧
      (∀ k < Sample.file.length, ∃ offset needed,
        read (Sample.file.take k) = .error (.unexpectedEof offset needed) ∧ offset ≤ k ∧
          1 ≤ needed ∧ needed ≤ Sample.file.length - k) ∧
      ∀ rest, rest ≠ [] → read (Sample.file ++ rest) = .error (.trailingBytes rest.length) :=
  ⟨Sample.read_file, read_take_and_append Sample.read_file⟩

end ClassFile

end ClassAccess
