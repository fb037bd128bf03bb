import ClassAccess.Proofs.Bytes.Patches
import ClassAccess.Proofs.ClassFile.Rewriting

/-!
# Where flag words and code stand

The flag words of a class file and the code of its methods are stretches of the file that follow one
another: the flag word of the class, those of its fields, for each method its flag word and its
code, and the flag words of inner classes.

## Main definitions

* `Part` — an element of a class that has a flag word.
* `ClassFile.parts` — the elements in order.
* `ClassFile.regions` — the flag words and the code.

## Main results

* `ClassFile.ascending_rooms` — they follow one another, and each starts behind the one before it.
* `ClassFile.word_of_part` — a flag word is what the file has in its place.
-/

set_option autoImplicit false

namespace ClassAccess

/-! ## Parts -/

/-- An element of a class that has a flag word. -/
inductive Part
  /-- The class itself. -/
  | whole (c : ClassFile)
  /-- A field. -/
  | field (f : Field)
  /-- A method. -/
  | method (m : Method)
  /-- An inner class. -/
  | innerClass (i : InnerClass)

namespace Part

/-- The flag word. -/
def flags : Part → Flags
  | whole c => c.flags
  | field f => f.flags
  | method m => m.flags
  | innerClass i => i.flags

/-- Where the flag word stands in the file. -/
def offset : Part → Nat
  | whole c => c.flagsOffset
  | field f => f.flagsOffset
  | method m => m.flagsOffset
  | innerClass i => i.flagsOffset

end Part

/-- The elements of a class in the order of the file. -/
def ClassFile.parts (c : ClassFile) : List Part :=
  .whole c :: (c.fields.map .field ++ (c.methods.map .method ++ c.innerClasses.map .innerClass))

namespace ClassFile

variable (c : ClassFile)

/-- A field is a part of its class. -/
theorem field_mem_parts {f : Field} (hf : f ∈ c.fields) : .field f ∈ c.parts :=
  List.mem_cons_of_mem _ (List.mem_append_left _ (List.mem_map_of_mem hf))

/-- A method is a part of its class. -/
theorem method_mem_parts {m : Method} (hm : m ∈ c.methods) : .method m ∈ c.parts :=
  List.mem_cons_of_mem _ (List.mem_append_right _ (List.mem_append_left _ (List.mem_map_of_mem hm)))

/-- An inner class is a part of the class that mentions it. -/
theorem innerClass_mem_parts {i : InnerClass} (hi : i ∈ c.innerClasses) : .innerClass i ∈ c.parts :=
  List.mem_cons_of_mem _
    (List.mem_append_right _ (List.mem_append_right _ (List.mem_map_of_mem hi)))

end ClassFile

/-! ## Regions -/

/-- The two bytes of a flag word. -/
def Span.word (offset : Nat) : Span := ⟨offset, 2⟩

/-- A word has room. -/
@[simp]
theorem Span.room_word (offset : Nat) : (Span.word offset).room = .word offset := rfl

/-- The flag word of a method and its code. -/
def Method.regions (m : Method) : List Span :=
  .word m.flagsOffset :: m.code.toList

/-- The flag words of a class and the code of its methods, in the order of the file. -/
def ClassFile.regions (c : ClassFile) : List Span :=
  .word c.flagsOffset :: (c.fields.map (fun f => .word f.flagsOffset) ++
    (c.methods.flatMap Method.regions ++ c.innerClasses.map fun i => .word i.flagsOffset))

/-- The regions of members in place follow one another if those of each member lie in it. -/
theorem Placed.ascending {α ρ : Type} {write : ρ → List UInt8} {means : Nat → ρ → α → Prop}
    {regions : α → List Span}
    (step : ∀ o raw a, means o raw a → Ascending o (regions a) (o + (write raw).length))
    {o : Nat} {raws : List ρ} {as : List α} (h : Placed write means o raws as) :
    Ascending o (as.flatMap regions) (o + (raws.flatMap write).length) := by
  induction h with
  | nil o => exact .nil (Nat.le_add_right ..)
  | cons head _ ih =>
    rw [List.flatMap_cons, List.flatMap_cons, List.length_append, ← Nat.add_assoc]
    exact (step _ _ _ head).append ih

/-- A member has eight bytes and its attributes. -/
theorem RawMember.le_length_bytes (raw : RawMember) : 8 ≤ raw.bytes.length := by
  simp only [bytes, counted, List.length_append, length_wordBytes]
  omega

/-- The flag word of a field lies in what the field is written as. -/
theorem Field.Meant.ascending {pool : ConstantPool} {o : Nat} {raw : RawMember} {f : Field}
    (h : Field.Meant pool o raw f) :
    Ascending o [Span.word f.flagsOffset] (o + raw.bytes.length) := by
  obtain ⟨as, hm⟩ := h
  have := raw.le_length_bytes
  rw [hm.flagsOffset_eq]
  refine .cons (Nat.le_refl o) (.nil ?_)
  simp only [Span.word]
  omega

/-- The flag word of a method and its code lie in what the method is written as. Something follows
the code, so that there is room even if it is empty. -/
theorem Method.Meant.ascending {pool : ConstantPool} {o : Nat} {raw : RawMember} {m : Method}
    (h : Method.Meant pool o raw m) :
    Ascending o (m.regions.map Span.room) (o + raw.bytes.length) := by
  have := raw.le_length_bytes
  rw [Method.regions, h.flagsOffset_eq, List.map_cons, Span.room_word]
  refine .cons (Nat.le_refl o) ?_
  obtain hnone | ⟨front, code, back, hbytes, hfront, hback, hcode, -, -⟩ := h.code_cases
  · rw [hnone]
    refine .nil ?_
    simp only [Span.word]
    omega
  · rw [hcode, hbytes, List.length_append, List.length_append]
    refine .cons ?_ (.nil ?_)
    · simp only [Span.room, Span.word]
      omega
    · simp only [Span.room]
      omega

/-- The flag word of an inner class is the last one of its eight bytes. -/
theorem RawInnerClass.Means.ascending {pool : ConstantPool} {o : Nat} {raw : RawInnerClass}
    {i : InnerClass} (h : RawInnerClass.Means pool o raw i) :
    Ascending o [Span.word i.flagsOffset] (o + raw.bytes.length) := by
  rw [h.offset, RawInnerClass.length_bytes]
  refine .cons (Nat.le_add_right ..) (.nil ?_)
  simp only [Span.word]
  omega

/-- Where the inner classes stand that the attributes of a class mention. -/
theorem ClassFile.exists_placed_innerClasses {pool : ConstantPool} {o : Nat}
    {raws : List RawAttribute} {as : List FileAttribute} {is : List InnerClass}
    (h : Placed RawAttribute.bytes (RawAttribute.Means pool) o raws as)
    (hfold : as.foldlM (withAttribute pool) [] = .ok is) :
    ∃ front ris back, raws.flatMap RawAttribute.bytes =
        front ++ (ris.flatMap RawInnerClass.bytes ++ back) ∧
      Placed RawInnerClass.bytes (RawInnerClass.Means pool) (o + front.length) ris is := by
  obtain ⟨-, rfl⟩ | ⟨as₁, a, as₂, rfl, -, his, -⟩ := foldlM_named hfold
  · exact ⟨[], [], raws.flatMap RawAttribute.bytes, rfl, .nil _⟩
  obtain ⟨raws₁, ra, raws₂, rfl, -, hra, -⟩ := h.around
  obtain ⟨ris, -, hplaced, hbody⟩ := FileAttribute.innerClasses_eq_ok_iff.1 his
  refine ⟨raws₁.flatMap RawAttribute.bytes ++ (wordBytes ra.name ++
      (longBytes (UInt32.ofNat ra.body.length) ++ wordBytes (UInt16.ofNat ris.length))), ris,
    raws₂.flatMap RawAttribute.bytes, ?_, ?_⟩
  · have hb : ra.bytes = wordBytes ra.name ++ (longBytes (UInt32.ofNat ra.body.length) ++
        counted RawInnerClass.bytes ris) := by
      rw [RawAttribute.bytes, ← hra.body, hbody]
    simp only [List.flatMap_append, List.flatMap_cons, hb, counted, List.append_assoc]
  · rw [hra.offset] at hplaced
    have ho : o + (raws₁.flatMap RawAttribute.bytes).length + 6 + 2 =
        o + (raws₁.flatMap RawAttribute.bytes ++ (wordBytes ra.name ++
          (longBytes (UInt32.ofNat ra.body.length) ++
            wordBytes (UInt16.ofNat ris.length)))).length := by
      simp only [List.length_append, length_wordBytes, length_longBytes]
      omega
    exact ho ▸ hplaced

namespace ClassFile

variable {file : List UInt8} {c : ClassFile}

/-- The bytes of a class that was read are those of the file. -/
theorem bytes_of_read (h : read file = .ok c) : c.bytes = file := by
  obtain ⟨-, -, hfile, -⟩ := read_eq_ok_iff.1 h
  exact hfile

/-- **The flag words and the code of a class file follow one another**, with room for one byte in
each of them. -/
theorem ascending_rooms (h : read file = .ok c) :
    Ascending 0 (c.regions.map Span.room) file.length := by
  obtain ⟨raw, hmean, -, rfl⟩ := read_eq_ok_iff.1 h
  obtain ⟨as, has, hfold⟩ := hmean.attributes
  obtain ⟨front, ris, back, hattrs, hris⟩ := exists_placed_innerClasses has hfold
  have hfields := hmean.fields.ascending fun _ _ _ hf => Field.Meant.ascending hf
  have hmethods := hmean.methods.ascending fun _ _ _ hm => Method.Meant.ascending hm
  have hinner := hris.ascending fun _ _ _ hi => RawInnerClass.Means.ascending hi
  rw [← List.map_eq_flatMap] at hfields hinner
  rw [← List.map_flatMap] at hmethods
  have hend : raw.attributesOffset + front.length + (ris.flatMap RawInnerClass.bytes).length ≤
      raw.bytes.length := by
    rw [raw.bytes_eq_attributes, hattrs, ← raw.length_beforeAttributes]
    simp only [List.length_append]
    omega
  have hbehind : c.flagsOffset + 2 ≤ raw.fieldsOffset := by
    rw [hmean.offset, RawClass.fieldsOffset]
    omega
  have hupToMethods : Ascending (c.flagsOffset + 2) (c.fields.map fun f => .word f.flagsOffset)
      raw.methodsOffset := (hfields.lower hbehind).raise (Nat.le_add_right ..)
  have hupToAttributes : Ascending raw.methodsOffset
      ((c.methods.flatMap Method.regions).map Span.room) raw.attributesOffset :=
    hmethods.raise (Nat.le_add_right ..)
  have hupToEnd : Ascending raw.attributesOffset (c.innerClasses.map fun i => .word i.flagsOffset)
      raw.bytes.length := (hinner.lower (Nat.le_add_right ..)).raise hend
  have hrooms : c.regions.map Span.room = .word c.flagsOffset ::
      (c.fields.map (fun f => .word f.flagsOffset) ++
        ((c.methods.flatMap Method.regions).map Span.room ++
          c.innerClasses.map fun i => .word i.flagsOffset)) := by
    simp only [regions, List.map_cons, List.map_append, List.map_map, Function.comp_def,
      Span.room_word]
  rw [hrooms]
  exact .cons (Nat.zero_le _) (hupToMethods.append (hupToAttributes.append hupToEnd))

/-- The flag words and the code of a class file follow one another. -/
theorem ascending_regions (h : read file = .ok c) : Ascending 0 c.regions file.length :=
  (ascending_rooms h).of_room

/-- The word in the place of a field or method that is known to stand in the file. -/
theorem word_of_member {raw : RawMember} {pre : List UInt8} (post : List UInt8) {o : Nat}
    (ho : o = pre.length) :
    (Span.word o).of (pre ++ (raw.bytes ++ post)) = wordBytes raw.flags := by
  rw [RawMember.bytes, List.append_assoc]
  exact Span.of_append _ ho rfl

/-- **A flag word is what the file has in its place.** -/
theorem word_of_part (h : read file = .ok c) {p : Part} (hp : p ∈ c.parts) :
    (Span.word p.offset).of file = wordBytes p.flags := by
  obtain ⟨raw, hmean, -, rfl⟩ := read_eq_ok_iff.1 h
  simp only [parts, List.mem_cons, List.mem_append, List.mem_map] at hp
  rcases hp with rfl | ⟨f, hf, rfl⟩ | ⟨m, hm, rfl⟩ | ⟨i, hi, rfl⟩
  · show (Span.word c.flagsOffset).of raw.bytes = wordBytes c.flags
    rw [hmean.flags, RawClass.bytes]
    exact Span.of_append _ hmean.offset rfl
  · rw [raw.bytes_eq_fields]
    obtain ⟨rf, pre, post, hsplit, as, hfm⟩ :=
      hmean.fields.exists_of_mem hf _ raw.length_beforeFields
    show (Span.word f.flagsOffset).of _ = wordBytes f.flags
    rw [hsplit, hfm.flags_eq]
    exact word_of_member post hfm.flagsOffset_eq
  · rw [raw.bytes_eq_methods]
    obtain ⟨rm, pre, post, hsplit, as, hmm, -⟩ :=
      hmean.methods.exists_of_mem hm _ raw.length_beforeMethods
    show (Span.word m.flagsOffset).of _ = wordBytes m.flags
    rw [hsplit, hmm.flags_eq]
    exact word_of_member post hmm.flagsOffset_eq
  · obtain ⟨as, has, hfold⟩ := hmean.attributes
    obtain ⟨front, ris, back, hattrs, hris⟩ := exists_placed_innerClasses has hfold
    have hfront : (raw.beforeAttributes ++ front).length = raw.attributesOffset + front.length := by
      rw [List.length_append, raw.length_beforeAttributes]
    obtain ⟨ri, pre, post, hsplit, him⟩ := hris.exists_of_mem hi back hfront
    have hslots : pre ++ (ri.bytes ++ post) = (pre ++ (wordBytes ri.name ++ (wordBytes ri.outer ++
        wordBytes ri.simpleName))) ++ (wordBytes ri.flags ++ post) := by
      simp only [RawInnerClass.bytes, List.append_assoc]
    show (Span.word i.flagsOffset).of _ = wordBytes i.flags
    rw [raw.bytes_eq_attributes, hattrs, List.append_nil, ← List.append_assoc, hsplit, hslots,
      him.flags]
    refine Span.of_append _ ?_ rfl
    rw [him.offset, List.length_append]
    rfl

/-- The descriptor of a method is one. -/
theorem isMethodDescriptor_of_mem (h : read file = .ok c) {m : Method} (hm : m ∈ c.methods) :
    isMethodDescriptor m.descriptor.toList = true := by
  obtain ⟨raw, hmean, -, -⟩ := read_eq_ok_iff.1 h
  obtain ⟨rm, pre, post, -, as, hmm, -⟩ :=
    hmean.methods.exists_of_mem hm [] raw.length_beforeMethods
  exact hmm.isDescriptor_eq

/-- A method without a place for code has none. -/
theorem code?_of_none {m : Method} (hcode : m.code = none) : c.code? m = none := by
  rw [code?, hcode, Option.map_none]

/-- **The code of a method is a row of instructions** that fills its place. -/
theorem code_of_method (h : read file = .ok c) {m : Method} (hm : m ∈ c.methods) {span : Span}
    (hspan : m.code = some span) :
    c.code? m = some (span.of file) ∧ (span.of file).length = span.length ∧
      ∃ n, Code.count (span.of file) = .ok n := by
  obtain ⟨raw, hmean, hfile, rfl⟩ := read_eq_ok_iff.1 h
  refine ⟨by rw [code?, hspan, hfile, Option.map_some], ?_⟩
  obtain ⟨rm, pre, post, hsplit, hmm⟩ := hmean.methods.exists_of_mem hm _ raw.length_beforeMethods
  obtain hnone | ⟨front, code, back, hbytes, -, -, hcode, hcount, -⟩ := hmm.code_cases
  · rw [hspan] at hnone
    cases hnone
  · rw [hspan, Option.some.injEq] at hcode
    have hof : span.of raw.bytes = code := by
      rw [hcode, raw.bytes_eq_methods, hsplit, hbytes, List.append_assoc, List.append_assoc,
        ← List.append_assoc]
      exact Span.of_append _ (List.length_append ..).symm rfl
    rw [hof, hcode]
    exact ⟨rfl, hcount⟩

/-- Code that a method has stands in a place of the file. -/
theorem exists_span_of_code? (h : read file = .ok c) {m : Method} (hm : m ∈ c.methods)
    {code : List UInt8} (hcode : c.code? m = some code) :
    ∃ span n, m.code = some span ∧ span.of file = code ∧ code.length = span.length ∧
      Code.count code = .ok n := by
  cases hspan : m.code with
  | none =>
    rw [code?_of_none hspan] at hcode
    cases hcode
  | some span =>
    obtain ⟨hcode', hlen, n, hcount⟩ := code_of_method h hm hspan
    rw [hcode', Option.some.injEq] at hcode
    subst hcode
    exact ⟨span, n, rfl, rfl, hlen, hcount⟩

end ClassFile

end ClassAccess
