import ClassAccess.Proofs.Widening.Failures

/-!
# Errors that name the class

The name of a class is known as soon as the header of its file is read: the version, the constant
pool, and the flag word and the slot of the name that follow it. An error does not tell the name
that early. It names the class only if the whole file is read, and every defect of a file behind its
header is reported without a name.

## Main definitions

* `ClassFile.readHeader` — reads a file up to the name of its class.
* `ClassFile.headerName?` — the name of the class, if the header of the file is readable.

## Main results

* `ClassFile.headerName?_eq_some_iff` — how a readable header is written.
* `ClassFile.headerName?_of_read` — the name of a class is the one in the header of its file.
* `RuleSet.named_iff_read` — which errors name the class.
* `RuleSet.unnamed_behind_header` — an error without a name on a file with a readable header.
-/

set_option autoImplicit false

namespace ClassAccess

namespace ClassFile

/-! ## Headers -/

/-- The name of the class at the start of what lies ahead. -/
def readHeader : Reader String := do
  let _ ← readVersion
  let pool ← ConstantPool.read
  let _ ← Reader.u2
  Reader.ofExcept (pool.className (← Reader.u2))

/-- The name of the class in a file with a readable header, whatever follows the header. -/
def headerName? (file : List UInt8) : Option String :=
  match readHeader ⟨0, file⟩ with
  | .ok (name, _) => some name
  | .error _ => none

variable {file : List UInt8} {name : String}

/-- **A header is readable** if a version that is not too old, a pool that means something, a flag
word and the slot of the name of a class are written one after the other. -/
theorem headerName?_eq_some_iff :
    headerName? file = some name ↔ ∃ (minor major : UInt16) (raw : RawPool) (pool : ConstantPool)
      (flags : Flags) (slot : UInt16) (rest : List UInt8), ¬major < oldestMajor ∧ raw.Means pool ∧
        pool.className slot = .ok name ∧
        file = (longBytes magic ++ (wordBytes minor ++ wordBytes major)) ++
          (raw.bytes ++ (wordBytes flags ++ (wordBytes slot ++ rest))) := by
  have hread : headerName? file = some name ↔ ∃ d, readHeader ⟨0, file⟩ = .ok (name, d) := by
    rw [headerName?]
    cases readHeader ⟨0, file⟩ with
    | error e => simp
    | ok found => simp [Prod.ext_iff]
  rw [hread]
  simp only [readHeader, Parser.bind_eq_ok_iff, Reader.u2_eq_ok_iff, Reader.ofExcept_eq_ok_iff,
    ConstantPool.read_exact _ _ _]
  constructor
  · rintro ⟨d, ⟨minor, major⟩, c₁, hversion, pool, c₂, ⟨raw, hpool, h₂⟩, flags, c₃, h₃, slot, c₄,
      h₄, hname, -⟩
    obtain ⟨hrecent, h₁⟩ := readVersion_eq_ok_iff.1 hversion
    have hfile := (h₁.trans (h₂.trans (h₃.trans h₄))).ahead
    refine ⟨minor, major, raw, pool, flags, slot, c₄.ahead, hrecent, hpool, hname, ?_⟩
    simpa only [List.append_assoc] using hfile
  · rintro ⟨minor, major, raw, pool, flags, slot, rest, hrecent, hpool, hname, hfile⟩
    let header := (longBytes magic ++ (wordBytes minor ++ wordBytes major)) ++
      (raw.bytes ++ (wordBytes flags ++ wordBytes slot))
    have hm : Cursor.Moves ⟨0, file⟩ header ⟨0 + header.length, rest⟩ := by
      refine ⟨?_, rfl⟩
      simp only [hfile, header, List.append_assoc]
    obtain ⟨c₁, h₁, hm⟩ := hm.split
    obtain ⟨c₂, h₂, hm⟩ := hm.split
    obtain ⟨c₃, h₃, h₄⟩ := hm.split
    exact ⟨_, (minor, major), c₁, readVersion_eq_ok_iff.2 ⟨hrecent, h₁⟩, pool, c₂, ⟨raw, hpool, h₂⟩,
      flags, c₃, h₃, slot, _, h₄, hname, rfl⟩

/-- The name of a class that is read is the one in the header of its file. -/
theorem headerName?_of_read {c : ClassFile} (h : read file = .ok c) :
    headerName? file = some c.name := by
  obtain ⟨raw, hmeans, -, hfile⟩ := read_eq_ok_iff.1 h
  refine headerName?_eq_some_iff.2 ⟨raw.minor, raw.major, raw.pool, c.pool, raw.flags, raw.name,
    wordBytes raw.superName ++ (counted wordBytes raw.interfaces ++
      (wordBytes (UInt16.ofNat raw.fields.length) ++ (raw.fields.flatMap RawMember.bytes ++
        (counted RawMember.bytes raw.methods ++ counted RawAttribute.bytes raw.attributes)))),
    hmeans.recent, hmeans.pool, hmeans.name, ?_⟩
  rw [← hfile, RawClass.bytes, RawClass.front, RawClass.middle]
  simp only [List.append_assoc]

end ClassFile

namespace RuleSet

/-! ## Errors -/

variable {s : RuleSet} {file : List UInt8} {err : WideningError}

/-- **An error names a class exactly if the file is read**, and then it is the name in the header.
Such an error is about a call in one of the methods. On a file that is not read the error is why it
is not, without a name, be the header readable or not. -/
theorem named_iff_read (h : s.widen file = .error err) :
    (∀ name, err.className = some name ↔
      ClassFile.headerName? file = some name ∧ ∃ c, ClassFile.read file = .ok c) ∧
      ((∃ c, ClassFile.read file = .ok c ∧ ∃ m ∈ c.methods, ∃ pc slot kind,
        StuckAt s.rules.toList c m pc slot kind ∧
          err = ⟨some c.name, .classFile (.badConstantIndex slot kind)⟩) ∨
        ∃ e, ClassFile.read file = .error e ∧ err = ⟨none, .classFile e⟩) := by
  cases hread : ClassFile.read file with
  | error e =>
    have herr : err = ⟨none, .classFile e⟩ := by
      rw [widen, hread] at h
      exact (Except.error.inj h).symm
    refine ⟨fun name => ?_, .inr ⟨e, rfl, herr⟩⟩
    simp [herr]
  | ok c =>
    obtain ⟨before, m, after, hmethods, -, pc, slot, kind, hstuck, herr⟩ :=
      (answers_eq_error_iff hread).1 ((s.widen_eq_error_iff_answers file hread).1 h)
    have hm : m ∈ c.methods := hmethods ▸ List.mem_append_right _ List.mem_cons_self
    refine ⟨fun name => ?_, .inl ⟨c, rfl, m, hm, pc, slot, kind, hstuck, herr⟩⟩
    simp [herr, ClassFile.headerName?_of_read hread]

/-- If the call in the method of the small class refers to the class itself, the error names the
class. With one byte behind the class it does not. -/
theorem named_iff_read_sample :
    let stuck := patched Sample.file [⟨107, [2]⟩]
    let err : WideningError := ⟨some "A", .classFile (.badConstantIndex 2 .methodRef)⟩
    let unnamed : WideningError := ⟨none, .classFile (.trailingBytes 1)⟩
    Sample.rules.widen stuck = .error err ∧ ClassFile.headerName? stuck = some "A" ∧
      Sample.rules.widen (stuck ++ [0]) = .error unnamed ∧
      ¬∃ c, ClassFile.read (stuck ++ [0]) = .ok c := by
  intro stuck err unnamed
  have herr : Sample.rules.widen stuck = .error err := by decide +kernel
  have hlonger : Sample.rules.widen (stuck ++ [0]) = .error unnamed := by decide +kernel
  have hheader : ClassFile.headerName? (stuck ++ [0]) = some "A" := by decide +kernel
  obtain ⟨hnamed, -⟩ := named_iff_read herr
  obtain ⟨hunnamed, -⟩ := named_iff_read hlonger
  refine ⟨herr, ((hnamed "A").1 rfl).1, hlonger, fun hread => ?_⟩
  cases (hunnamed "A").2 ⟨hheader, hread⟩

/-- **Behind a readable header an error may be without a name.** The small class with one byte
behind it is not read, and the error does not tell the name in its header. -/
theorem unnamed_behind_header :
    ClassFile.headerName? (Sample.file ++ [0]) = some "A" ∧
      (ofRules []).widen (Sample.file ++ [0]) = .error ⟨none, .classFile (.trailingBytes 1)⟩ := by
  constructor <;> decide +kernel

end RuleSet

end ClassAccess
