import ClassAccess.Proofs.ClassFile.Boundaries
import ClassAccess.Proofs.ClassFile.DescriptorGrammar
import ClassAccess.Proofs.ClassFile.PoolDescription
import ClassAccess.Proofs.ClassFile.Unambiguous

/-!
# The format of class files, described without a reader

A class is described by its parts: words, entries of the constant pool, members with attributes that
are byte strings under names. What makes such a description well-formed and what it says about a
class is put down here without any reader. The reader accepts exactly the files of well-formed
descriptions, and what it gives is what the description says.

## Main definitions

* `RawMember.WellFormed`, `RawClass.WellFormed` — members and classes that are as they should be.
* `IsCodeBody`, `IsInnerClassesBody` — the contents of the two attributes that are looked into.
* `LastNamed` — the attribute of a name that counts.
* `RawClass.Describes` — what a description says about a class.

## Main results

* `RawClass.WellFormed.exists_means`, `RawClass.Means.wellFormed` — the well-formed descriptions are
  those that mean something.
* `RawClass.Means.describes` — what they mean is what they say.
* `ClassFile.read_exactly` — the reader accepts exactly the files of well-formed descriptions.

## Design

A description holds the contents of attributes as bytes, also of those that are looked into, so that
each file has one description. That an attribute is looked into is a condition on its bytes.
-/

set_option autoImplicit false

namespace ClassAccess

/-! ## References that may be left out -/

/-- Slot `index` refers to a name, where slot zero refers to none. -/
def Optionally (refers : UInt16 → String → Prop) (index : UInt16) : Option String → Prop
  | none => index = 0
  | some name => index ≠ 0 ∧ refers index name

/-- A reference that may be left out is followed like one that may not. -/
theorem optionally_eq_ok_iff {resolve : UInt16 → Except ClassFileError String}
    {refers : UInt16 → String → Prop} {index : UInt16} {name? : Option String}
    (h : ∀ name, resolve index = .ok name ↔ refers index name) :
    FileAttribute.optionally resolve index = .ok name? ↔ Optionally refers index name? := by
  rw [FileAttribute.optionally]
  split
  · next hzero => cases name? <;> simp [Optionally, hzero]
  · next hzero =>
    rw [map_eq_ok_iff]
    cases name? <;> simp [Optionally, hzero, h]

/-! ## Attributes -/

/-- An attribute has a name, and its length fits its word. -/
structure RawAttribute.WellFormed (pool : RawPool) (raw : RawAttribute) : Prop where
  /-- The name is a text in the pool. -/
  name : ∃ name, pool.IsUtf8 raw.name name
  /-- The length of the contents fits its word. -/
  fits : raw.Fits

/-- None of the attributes has the name `name`. -/
def NoneNamed (pool : RawPool) (name : String) (raws : List RawAttribute) : Prop :=
  ∀ raw ∈ raws, ¬pool.IsUtf8 raw.name name

/-- `raw` is the last of the attributes that has the name `name`. -/
def LastNamed (pool : RawPool) (name : String) (raws : List RawAttribute) (raw : RawAttribute) :
    Prop :=
  ∃ before after, raws = before ++ raw :: after ∧ pool.IsUtf8 raw.name name ∧
    NoneNamed pool name after

section Attributes

variable {rp : RawPool} {pool : ConstantPool} {o : Nat}

/-- A well-formed attribute stands for one in each place. -/
theorem RawAttribute.WellFormed.exists_means (hp : rp.Describes pool) {raw : RawAttribute}
    (h : raw.WellFormed rp) (o : Nat) : ∃ a, RawAttribute.Means pool o raw a := by
  obtain ⟨⟨name, hname⟩, hfits⟩ := h
  exact ⟨⟨name, o + 6, raw.body⟩, hfits, hp.utf8_eq_ok_iff.2 hname, rfl, rfl⟩

/-- An attribute that stands for one is well-formed. -/
theorem RawAttribute.Means.wellFormed (hp : rp.Describes pool) {raw : RawAttribute}
    {a : FileAttribute} (h : RawAttribute.Means pool o raw a) : raw.WellFormed rp :=
  ⟨⟨a.name, hp.utf8_eq_ok_iff.1 h.name⟩, h.short⟩

/-- The name of an attribute is the one in its slot. -/
theorem RawAttribute.Means.isUtf8_iff (hp : rp.Describes pool) {raw : RawAttribute}
    {a : FileAttribute} (h : RawAttribute.Means pool o raw a) {name : String} :
    rp.IsUtf8 raw.name name ↔ a.name = name := by
  have hname := hp.utf8_eq_ok_iff.1 h.name
  constructor
  · exact fun hname' => hp.isUtf8_unique hname hname'
  · rintro rfl
    exact hname

variable {raws : List RawAttribute} {as : List FileAttribute} {name : String}

/-- A name is not among attributes in place if it is not among those that they stand for. -/
theorem noneNamed_iff (hp : rp.Describes pool)
    (h : Placed RawAttribute.bytes (RawAttribute.Means pool) o raws as) :
    NoneNamed rp name raws ↔ ∀ a ∈ as, a.name ≠ name := by
  induction h with
  | nil => simp [NoneNamed]
  | cons head _ ih =>
    rw [NoneNamed] at ih
    rw [NoneNamed, List.forall_mem_cons, List.forall_mem_cons, ih, head.isUtf8_iff hp]

/-- What is asked of the attributes of a name is asked of those that stand for them. -/
theorem forall_named_iff (hp : rp.Describes pool)
    (h : Placed RawAttribute.bytes (RawAttribute.Means pool) o raws as) (Good : List UInt8 → Prop) :
    (∀ a ∈ as, a.name = name → Good a.body) ↔
      ∀ raw ∈ raws, rp.IsUtf8 raw.name name → Good raw.body := by
  induction h with
  | nil => simp
  | cons head _ ih =>
    rw [List.forall_mem_cons, List.forall_mem_cons, ih, head.isUtf8_iff hp, head.body]

variable {σ : Type} {g : FileAttribute → Except ClassFileError σ} {s s' : σ}

/-- The attribute that counts is the last one of the name, as it is written. -/
theorem lastNamed_of_foldlM (hp : rp.Describes pool)
    (h : Placed RawAttribute.bytes (RawAttribute.Means pool) o raws as)
    (hfold : as.foldlM (fun s a => if a.name = name then g a else .ok s) s = .ok s') :
    (NoneNamed rp name raws ∧ s' = s) ∨
      ∃ before raw after a, raws = before ++ raw :: after ∧ LastNamed rp name raws raw ∧
        RawAttribute.Means pool (o + (before.flatMap RawAttribute.bytes).length) raw a ∧
        g a = .ok s' := by
  obtain ⟨-, ⟨hnone, hs⟩ | ⟨as₁, a, as₂, rfl, ha, hga, hrest⟩⟩ := foldlM_named_eq_ok_iff.1 hfold
  · exact .inl ⟨(noneNamed_iff hp h).2 hnone, hs⟩
  · obtain ⟨before, raw, after, hsplit, -, hraw, hafter⟩ := h.around
    refine .inr ⟨before, raw, after, a, hsplit, ⟨before, after, hsplit, ?_, ?_⟩, hraw, hga⟩
    · exact (hraw.isUtf8_iff hp).2 ha
    · exact (noneNamed_iff hp hafter).2 hrest

end Attributes

/-! ## Code -/

/-- The contents of a code attribute: four bytes for the sizes of the frame, the code behind its
length, and what may follow it. The code is a row of instructions. -/
def IsCodeBody (body code : List UInt8) : Prop :=
  ∃ frame tail, frame.length = 4 ∧ code.length < 0x100000000 ∧ (∃ is, Code.Row 0 code is) ∧
    FileAttribute.CodeTail tail ∧
    body = frame ++ (longBytes (UInt32.ofNat code.length) ++ (code ++ tail))

/-- Where the code of an attribute stands, and what stands there. -/
theorem FileAttribute.codeSpan_eq_ok_iff_isCodeBody {a : FileAttribute} {span : Span} :
    a.codeSpan = .ok span ↔
      ∃ code, IsCodeBody a.body code ∧ span = ⟨a.offset + 8, code.length⟩ := by
  rw [codeSpan_eq_ok_iff]
  constructor
  · rintro ⟨frame, code, tail, hframe, hlt, hcount, htail, hspan, hbody⟩
    exact ⟨code, ⟨frame, tail, hframe, hlt, Code.exists_count_iff.1 hcount, htail, hbody⟩, hspan⟩
  · rintro ⟨code, ⟨frame, tail, hframe, hlt, his, htail, hbody⟩, hspan⟩
    exact ⟨frame, code, tail, hframe, hlt, Code.exists_count_iff.2 his, htail, hspan, hbody⟩

/-- The code in an attribute is the stretch that the attribute says. -/
theorem IsCodeBody.of_file {pool : ConstantPool} {raw : RawAttribute} {a : FileAttribute}
    {pre post : List UInt8} (hraw : RawAttribute.Means pool pre.length raw a) {code : List UInt8}
    (h : IsCodeBody a.body code) :
    Span.of ⟨a.offset + 8, code.length⟩ (pre ++ (raw.bytes ++ post)) = code := by
  obtain ⟨frame, tail, hframe, -, -, -, hbody⟩ := h
  rw [hraw.body] at hbody
  have hfile : pre ++ (raw.bytes ++ post) =
      (pre ++ (wordBytes raw.name ++ (longBytes (UInt32.ofNat raw.body.length) ++ (frame ++
        longBytes (UInt32.ofNat code.length))))) ++ (code ++ (tail ++ post)) := by
    simp only [RawAttribute.bytes, List.append_assoc]
    rw [hbody]
    simp only [List.append_assoc]
  rw [hfile]
  refine Span.of_append _ ?_ rfl
  simp only [hraw.offset, List.length_append, length_wordBytes, length_longBytes, hframe]

/-! ## Inner classes -/

/-- The references of an inner class lead somewhere. -/
structure RawInnerClass.WellFormed (pool : RawPool) (raw : RawInnerClass) : Prop where
  /-- There is a class. -/
  name : ∃ name, pool.IsClass raw.name name
  /-- The class it is a member of may be left out. -/
  outer : ∃ outer, Optionally pool.IsClass raw.outer outer
  /-- So may its name in the source text. -/
  simpleName : ∃ simpleName, Optionally pool.IsUtf8 raw.simpleName simpleName

/-- What is written about an inner class. -/
structure RawInnerClass.Describes (pool : RawPool) (raw : RawInnerClass) (i : InnerClass) :
    Prop where
  /-- The flag word is as it is written. -/
  flags : i.flags = raw.flags
  /-- The name is that of the class in its slot. -/
  name : pool.IsClass raw.name i.name
  /-- So is the name of the class it is a member of, if it is one. -/
  outer : Optionally pool.IsClass raw.outer i.outer
  /-- The name in the source text is in its slot, if there is one. -/
  simpleName : Optionally pool.IsUtf8 raw.simpleName i.simpleName

/-- The contents of an inner classes attribute: entries of eight bytes behind their number. -/
structure IsInnerClassesBody (pool : RawPool) (body : List UInt8) (raws : List RawInnerClass) :
    Prop where
  /-- The number of entries fits its word. -/
  few : raws.length < 0x10000
  /-- There is nothing beside the entries and their number. -/
  body : body = counted RawInnerClass.bytes raws
  /-- The references lead somewhere. -/
  resolve : ∀ raw ∈ raws, raw.WellFormed pool

section InnerClasses

variable {rp : RawPool} {pool : ConstantPool} {o : Nat}

/-- What stands for an inner class describes it. -/
theorem RawInnerClass.means_iff (hp : rp.Describes pool) {raw : RawInnerClass} {i : InnerClass} :
    RawInnerClass.Means pool o raw i ↔ raw.Describes rp i ∧ i.flagsOffset = o + 6 := by
  have houter : FileAttribute.optionally pool.className raw.outer = .ok i.outer ↔
      Optionally rp.IsClass raw.outer i.outer :=
    optionally_eq_ok_iff fun _ => hp.className_eq_ok_iff
  have hsimple : FileAttribute.optionally pool.utf8 raw.simpleName = .ok i.simpleName ↔
      Optionally rp.IsUtf8 raw.simpleName i.simpleName :=
    optionally_eq_ok_iff fun _ => hp.utf8_eq_ok_iff
  constructor
  · rintro ⟨hname, ho, hs, hflags, hoffset⟩
    exact ⟨⟨hflags, hp.className_eq_ok_iff.1 hname, houter.1 ho, hsimple.1 hs⟩, hoffset⟩
  · rintro ⟨⟨hflags, hname, ho, hs⟩, hoffset⟩
    exact ⟨hp.className_eq_ok_iff.2 hname, houter.2 ho, hsimple.2 hs, hflags, hoffset⟩

/-- A well-formed inner class stands for one in each place. -/
theorem RawInnerClass.WellFormed.exists_means (hp : rp.Describes pool) {raw : RawInnerClass}
    (h : raw.WellFormed rp) (o : Nat) : ∃ i, RawInnerClass.Means pool o raw i := by
  obtain ⟨⟨name, hname⟩, ⟨outer, houter⟩, ⟨simpleName, hsimple⟩⟩ := h
  exact ⟨⟨raw.flags, o + 6, name, outer, simpleName⟩,
    (RawInnerClass.means_iff hp).2 ⟨⟨rfl, hname, houter, hsimple⟩, rfl⟩⟩

/-- What describes an inner class is well-formed. -/
theorem RawInnerClass.Describes.wellFormed {raw : RawInnerClass} {i : InnerClass}
    (h : raw.Describes rp i) : raw.WellFormed rp :=
  ⟨⟨i.name, h.name⟩, ⟨i.outer, h.outer⟩, ⟨i.simpleName, h.simpleName⟩⟩

/-- The inner classes in an attribute are those that its contents describe. -/
theorem exists_isInnerClassesBody (hp : rp.Describes pool) {a : FileAttribute}
    {is : List InnerClass} (h : a.innerClasses pool = .ok is) :
    ∃ raws, IsInnerClassesBody rp a.body raws ∧
      List.Forall₂ (RawInnerClass.Describes rp) raws is := by
  obtain ⟨raws, hfew, hplaced, hbody⟩ := FileAttribute.innerClasses_eq_ok_iff.1 h
  have hdescribes : List.Forall₂ (RawInnerClass.Describes rp) raws is :=
    hplaced.forall₂_of_imp fun _ _ _ hmeans => ((RawInnerClass.means_iff hp).1 hmeans).1
  refine ⟨raws, ⟨hfew, hbody, hplaced.forall_mem fun _ _ _ hmeans => ?_⟩, hdescribes⟩
  exact ((RawInnerClass.means_iff hp).1 hmeans).1.wellFormed

/-- An attribute has inner classes exactly if its contents are some. -/
theorem exists_innerClasses_iff (hp : rp.Describes pool) {a : FileAttribute} :
    (∃ is, a.innerClasses pool = .ok is) ↔ ∃ raws, IsInnerClassesBody rp a.body raws := by
  constructor
  · rintro ⟨is, his⟩
    obtain ⟨raws, hraws, -⟩ := exists_isInnerClassesBody hp his
    exact ⟨raws, hraws⟩
  · rintro ⟨raws, hfew, hbody, hresolve⟩
    obtain ⟨is, his⟩ := Placed.exists_of_forall RawInnerClass.bytes
      (fun raw hraw o => (hresolve raw hraw).exists_means hp o) (a.offset + 2)
    exact ⟨is, FileAttribute.innerClasses_eq_ok_iff.2 ⟨raws, hfew, his, hbody⟩⟩

end InnerClasses

/-! ## Members -/

/-- A text that is the descriptor of a field. -/
def FieldType.IsText (text : List Char) : Prop := ∃ t : FieldType, t.Legal ∧ t.text = text

/-- A text that is the descriptor of a method. -/
def MethodType.IsText (text : List Char) : Prop := ∃ t : MethodType, t.Legal ∧ t.text = text

/-- A member has a name and a descriptor, and its attributes are as they should be. -/
structure RawMember.WellFormed (pool : RawPool) (IsDescriptor : List Char → Prop)
    (raw : RawMember) : Prop where
  /-- The name is a text in the pool. -/
  name : ∃ name, pool.IsUtf8 raw.name name
  /-- So is the descriptor, and it is one. -/
  descriptor : ∃ descriptor, pool.IsUtf8 raw.descriptor descriptor ∧ IsDescriptor descriptor.toList
  /-- The number of attributes fits its word. -/
  few : raw.attributes.length < 0x10000
  /-- Each attribute is as it should be. -/
  attributes : ∀ a ∈ raw.attributes, a.WellFormed pool

/-- Each code attribute of a method has some code. -/
structure RawMember.WellFormedMethod (pool : RawPool) (raw : RawMember) : Prop
    extends raw.WellFormed pool MethodType.IsText where
  /-- The contents of the attributes of that name are some. -/
  code : ∀ a ∈ raw.attributes, pool.IsUtf8 a.name KnownAttribute.code.label →
    ∃ code, IsCodeBody a.body code

/-- What is written about a field. -/
structure RawMember.DescribesField (pool : RawPool) (raw : RawMember) (f : Field) : Prop where
  /-- The flag word is as it is written. -/
  flags : f.flags = raw.flags
  /-- The name is in its slot. -/
  name : pool.IsUtf8 raw.name f.name
  /-- So is the descriptor. -/
  descriptor : pool.IsUtf8 raw.descriptor f.descriptor

/-- What is written about a method of the class `c`. -/
structure RawMember.DescribesMethod (pool : RawPool) (c : ClassFile) (raw : RawMember)
    (m : Method) : Prop where
  /-- The flag word is as it is written. -/
  flags : m.flags = raw.flags
  /-- The name is in its slot. -/
  name : pool.IsUtf8 raw.name m.name
  /-- So is the descriptor. -/
  descriptor : pool.IsUtf8 raw.descriptor m.descriptor
  /-- The code is that of the last code attribute, if there is one. -/
  code : (NoneNamed pool KnownAttribute.code.label raw.attributes ∧ c.code? m = none) ∨
    ∃ a code, LastNamed pool KnownAttribute.code.label raw.attributes a ∧ IsCodeBody a.body code ∧
      c.code? m = some code

section Members

variable {rp : RawPool} {pool : ConstantPool} {o : Nat} {raw : RawMember}
  {isDescriptor : List Char → Bool} {IsDescriptor : List Char → Prop}

/-- A well-formed member stands for one in each place. -/
theorem RawMember.WellFormed.exists_means (hp : rp.Describes pool)
    (hd : ∀ text, isDescriptor text = true ↔ IsDescriptor text) (h : raw.WellFormed rp IsDescriptor)
    (o : Nat) : ∃ name descriptor as,
      RawMember.Means pool isDescriptor o raw raw.flags o name descriptor as := by
  obtain ⟨⟨name, hname⟩, ⟨descriptor, hdescriptor, hlegal⟩, hfew, hattributes⟩ := h
  obtain ⟨as, has⟩ := Placed.exists_of_forall RawAttribute.bytes
    (fun a ha o => (hattributes a ha).exists_means hp o) (o + 8)
  exact ⟨name, descriptor, as, rfl, rfl, hp.utf8_eq_ok_iff.2 hname,
    hp.utf8_eq_ok_iff.2 hdescriptor, (hd _).2 hlegal, hfew, has⟩

/-- A member that stands for one is well-formed. -/
theorem RawMember.Means.wellFormed {flags : Flags} {flagsOffset : Nat} {name descriptor : String}
    {as : List FileAttribute} (hp : rp.Describes pool)
    (hd : ∀ text, isDescriptor text = true ↔ IsDescriptor text)
    (h : RawMember.Means pool isDescriptor o raw flags flagsOffset name descriptor as) :
    raw.WellFormed rp IsDescriptor := by
  exact ⟨⟨name, hp.utf8_eq_ok_iff.1 h.name_eq⟩, ⟨descriptor, hp.utf8_eq_ok_iff.1 h.descriptor_eq,
    (hd _).1 h.isDescriptor_eq⟩, h.few,
    h.attributes.forall_mem fun _ _ _ hmeans => hmeans.wellFormed hp⟩

/-- The well-formed fields are those that stand for one, wherever they stand. -/
theorem exists_field_meant_iff (hp : rp.Describes pool) :
    (∃ f, Field.Meant pool o raw f) ↔ raw.WellFormed rp FieldType.IsText := by
  constructor
  · rintro ⟨f, as, hmeans⟩
    exact hmeans.wellFormed hp fun _ => isFieldDescriptor_iff
  · intro h
    obtain ⟨name, descriptor, as, hmeans⟩ := h.exists_means hp (fun _ => isFieldDescriptor_iff) o
    exact ⟨⟨raw.flags, o, name, descriptor⟩, as, hmeans⟩

/-- What stands for a field describes it. -/
theorem Field.Meant.describes (hp : rp.Describes pool) {f : Field} (h : Field.Meant pool o raw f) :
    raw.DescribesField rp f := by
  obtain ⟨as, hmeans⟩ := h
  exact ⟨hmeans.flags_eq, hp.utf8_eq_ok_iff.1 hmeans.name_eq,
    hp.utf8_eq_ok_iff.1 hmeans.descriptor_eq⟩

/-- The outcome of a code attribute is good if its contents are code. -/
theorem exists_code_iff {a : FileAttribute} :
    (∃ code?, some <$> a.codeSpan = .ok code?) ↔ ∃ code, IsCodeBody a.body code := by
  constructor
  · rintro ⟨code?, h⟩
    obtain ⟨span, hspan, -⟩ := map_eq_ok_iff.1 h
    obtain ⟨code, hcode, -⟩ := FileAttribute.codeSpan_eq_ok_iff_isCodeBody.1 hspan
    exact ⟨code, hcode⟩
  · rintro ⟨code, hcode⟩
    have hspan := FileAttribute.codeSpan_eq_ok_iff_isCodeBody.2 ⟨code, hcode, rfl⟩
    exact ⟨_, map_eq_ok_iff.2 ⟨_, hspan, rfl⟩⟩

/-- The well-formed methods are those that stand for one, wherever they stand. -/
theorem exists_method_meant_iff (hp : rp.Describes pool) :
    (∃ m, Method.Meant pool o raw m) ↔ raw.WellFormedMethod rp := by
  have hgood : ∀ {as : List FileAttribute} {s : Option Span},
      Placed RawAttribute.bytes (RawAttribute.Means pool) (o + 8) raw.attributes as →
        ((∃ code?, as.foldlM Method.withAttribute s = .ok code?) ↔
          ∀ a ∈ raw.attributes, rp.IsUtf8 a.name KnownAttribute.code.label →
            ∃ code, IsCodeBody a.body code) := by
    intro as s has
    have hfold : (∃ code?, as.foldlM Method.withAttribute s = .ok code?) ↔
        ∀ a ∈ as, a.name = KnownAttribute.code.label → ∃ code?, some <$> a.codeSpan = .ok code? :=
      exists_foldlM_named_iff
    rw [hfold]
    simp only [exists_code_iff]
    exact forall_named_iff hp has fun body => ∃ code, IsCodeBody body code
  constructor
  · rintro ⟨m, as, hmeans, hfold⟩
    exact ⟨hmeans.wellFormed hp fun _ => isMethodDescriptor_iff,
      (hgood hmeans.attributes).1 ⟨_, hfold⟩⟩
  · rintro ⟨h, hcode⟩
    obtain ⟨name, descriptor, as, hmeans⟩ := h.exists_means hp (fun _ => isMethodDescriptor_iff) o
    obtain ⟨code?, hfold⟩ := (hgood hmeans.attributes (s := none)).2 hcode
    exact ⟨⟨raw.flags, o, name, descriptor, code?⟩, as, hmeans, hfold⟩

/-- What stands for a method in a file describes it. -/
theorem Method.Meant.describes (hp : rp.Describes pool) {c : ClassFile} {m : Method}
    {pre post : List UInt8} (hfile : c.bytes = pre ++ (raw.bytes ++ post))
    (h : Method.Meant pool pre.length raw m) : raw.DescribesMethod rp c m := by
  obtain ⟨as, hmeans, hfold⟩ := h
  refine ⟨hmeans.flags_eq, hp.utf8_eq_ok_iff.1 hmeans.name_eq,
    hp.utf8_eq_ok_iff.1 hmeans.descriptor_eq, ?_⟩
  obtain ⟨hnone, hcode⟩ | ⟨before, ra, after, a, hsplit, hlast, hra, hcode⟩ :=
    lastNamed_of_foldlM hp hmeans.attributes hfold
  · exact .inl ⟨hnone, by rw [ClassFile.code?, hcode, Option.map_none]⟩
  · obtain ⟨span, hspan, hm⟩ := map_eq_ok_iff.1 hcode
    obtain ⟨code, hbody, rfl⟩ := FileAttribute.codeSpan_eq_ok_iff_isCodeBody.1 hspan
    have hfront : (pre ++ raw.beforeAttribute before).length =
        pre.length + 8 + (before.flatMap RawAttribute.bytes).length := by
      rw [List.length_append, RawMember.length_beforeAttribute]
      omega
    have hbytes : c.bytes = pre ++ raw.beforeAttribute before ++
        (ra.bytes ++ (after.flatMap RawAttribute.bytes ++ post)) := by
      rw [hfile, RawMember.bytes_eq_attribute hsplit]
      simp only [List.append_assoc]
    refine .inr ⟨ra, code, hlast, hra.body ▸ hbody, ?_⟩
    rw [ClassFile.code?, ← hm, Option.map_some, hbytes]
    exact congrArg some (IsCodeBody.of_file (hfront ▸ hra) hbody)

end Members

/-! ## Classes -/

namespace RawClass

/-- A description of a class that is as it should be. -/
structure WellFormed (raw : RawClass) : Prop where
  /-- The version is not older than the format. -/
  recent : ClassFile.oldestMajor ≤ raw.major
  /-- The constant pool is as it should be. -/
  pool : raw.pool.WellFormed
  /-- The class has a name. -/
  name : ∃ name, raw.pool.IsClass raw.name name
  /-- The class that it extends has one, unless it is left out. -/
  superName : ∃ superName, Optionally raw.pool.IsClass raw.superName superName
  /-- The number of interfaces fits its word. -/
  fewInterfaces : raw.interfaces.length < 0x10000
  /-- Each interface has a name. -/
  interfaces : ∀ i ∈ raw.interfaces, ∃ name, raw.pool.IsClass i name
  /-- The number of fields fits its word. -/
  fewFields : raw.fields.length < 0x10000
  /-- Each field is as it should be. -/
  fields : ∀ f ∈ raw.fields, f.WellFormed raw.pool FieldType.IsText
  /-- The number of methods fits its word. -/
  fewMethods : raw.methods.length < 0x10000
  /-- Each method is as it should be. -/
  methods : ∀ m ∈ raw.methods, m.WellFormedMethod raw.pool
  /-- The number of attributes fits its word. -/
  fewAttributes : raw.attributes.length < 0x10000
  /-- Each attribute is as it should be. -/
  attributes : ∀ a ∈ raw.attributes, a.WellFormed raw.pool
  /-- Each inner classes attribute has some. -/
  innerClasses : ∀ a ∈ raw.attributes,
    raw.pool.IsUtf8 a.name KnownAttribute.innerClasses.label →
      ∃ raws, IsInnerClassesBody raw.pool a.body raws

/-- What is written about a class. -/
structure Describes (raw : RawClass) (c : ClassFile) : Prop where
  /-- The file is what is written. -/
  bytes : c.bytes = raw.bytes
  /-- The lesser part of the version is as it is written. -/
  minor : c.minor = raw.minor
  /-- So is the greater part. -/
  major : c.major = raw.major
  /-- So is the constant pool, slot by slot. -/
  pool : raw.pool.Describes c.pool
  /-- So is the flag word. -/
  flags : c.flags = raw.flags
  /-- The name is that of the class in its slot. -/
  name : raw.pool.IsClass raw.name c.name
  /-- So is the name of the class that it extends, if there is one. -/
  superName : Optionally raw.pool.IsClass raw.superName c.superName
  /-- So are the names of the interfaces. -/
  interfaces : List.Forall₂ raw.pool.IsClass raw.interfaces c.interfaces
  /-- The fields are described one by one. -/
  fields : List.Forall₂ (RawMember.DescribesField raw.pool) raw.fields c.fields
  /-- So are the methods. -/
  methods : List.Forall₂ (RawMember.DescribesMethod raw.pool c) raw.methods c.methods
  /-- The inner classes are those of the last inner classes attribute, if there is one. -/
  innerClasses :
    (NoneNamed raw.pool KnownAttribute.innerClasses.label raw.attributes ∧ c.innerClasses = []) ∨
      ∃ a raws, LastNamed raw.pool KnownAttribute.innerClasses.label raw.attributes a ∧
        IsInnerClassesBody raw.pool a.body raws ∧
        List.Forall₂ (RawInnerClass.Describes raw.pool) raws c.innerClasses

variable {raw : RawClass} {c : ClassFile}

/-- The parts of a well-formed description fit their words. -/
theorem WellFormed.fits (h : raw.WellFormed) : raw.Fits where
  pool := RawPool.wellFormed_iff.1 h.pool
  interfaces := h.fewInterfaces
  fewFields := h.fewFields
  fields f hf := ⟨(h.fields f hf).few, fun a ha => ((h.fields f hf).attributes a ha).fits⟩
  fewMethods := h.fewMethods
  methods m hm := ⟨(h.methods m hm).few, fun a ha => ((h.methods m hm).attributes a ha).fits⟩
  fewAttributes := h.fewAttributes
  attributes a ha := (h.attributes a ha).fits

/-- The inner classes of a class can be told if each attribute of that name has some. -/
theorem exists_innerClasses_iff_of_placed {rp : RawPool} {pool : ConstantPool} {o : Nat}
    {raws : List RawAttribute} {as : List FileAttribute} (hp : rp.Describes pool)
    (has : Placed RawAttribute.bytes (RawAttribute.Means pool) o raws as) :
    (∃ is, as.foldlM (ClassFile.withAttribute pool) [] = .ok is) ↔
      ∀ a ∈ raws, rp.IsUtf8 a.name KnownAttribute.innerClasses.label →
        ∃ ris, IsInnerClassesBody rp a.body ris := by
  have hfold : (∃ is, as.foldlM (ClassFile.withAttribute pool) [] = .ok is) ↔
      ∀ a ∈ as, a.name = KnownAttribute.innerClasses.label → ∃ is, a.innerClasses pool = .ok is :=
    exists_foldlM_named_iff
  rw [hfold]
  simp only [exists_innerClasses_iff hp]
  exact forall_named_iff hp has fun body => ∃ ris, IsInnerClassesBody rp body ris

/-- **What a description means is what it says.** -/
theorem Means.describes (h : raw.Means c) (hfile : c.bytes = raw.bytes) : raw.Describes c := by
  have hp : raw.pool.Describes c.pool := h.pool.describes
  obtain ⟨as, has, hfold⟩ := h.attributes
  exact {
    bytes := hfile
    minor := h.minor
    major := h.major
    pool := hp
    flags := h.flags
    name := hp.className_eq_ok_iff.1 h.name
    superName := (optionally_eq_ok_iff fun _ => hp.className_eq_ok_iff).1 h.superName
    interfaces := h.interfaces.forall₂_of_imp fun _ _ _ hname => hp.className_eq_ok_iff.1 hname
    fields := h.fields.forall₂_of_imp fun _ _ _ hmeant => hmeant.describes hp
    methods := by
      refine h.methods.forall₂ (counted RawAttribute.bytes raw.attributes) raw.length_beforeMethods
        fun pre rm post m hsplit hmeant => ?_
      have hmethod : c.bytes = pre ++ (rm.bytes ++ post) := by rw [hfile, bytes_eq_methods, hsplit]
      exact hmeant.describes hp hmethod
    innerClasses := by
      obtain ⟨hnone, hempty⟩ | ⟨before, ra, after, a, -, hlast, hra, his⟩ :=
        lastNamed_of_foldlM hp has hfold
      · exact .inl ⟨hnone, hempty⟩
      · obtain ⟨ris, hbody, hdescribes⟩ := exists_isInnerClassesBody hp his
        exact .inr ⟨ra, ris, hlast, hra.body ▸ hbody, hdescribes⟩ }

/-- A well-formed description means something. -/
theorem WellFormed.exists_means (h : raw.WellFormed) : ∃ c, raw.Means c ∧ c.bytes = raw.bytes := by
  obtain ⟨pool, hpool⟩ := RawPool.wellFormed_iff.1 h.pool
  have hp : raw.pool.Describes pool := hpool.describes
  obtain ⟨name, hname⟩ := h.name
  obtain ⟨superName, hsuper⟩ := h.superName
  obtain ⟨interfaces, hinterfaces⟩ : ∃ names, Placed wordBytes
      (fun _ index name => pool.className index = .ok name) (raw.front.length + 8) raw.interfaces
      names := by
    refine Placed.exists_of_forall wordBytes (fun i hi _ => ?_) _
    exact (h.interfaces i hi).imp fun _ => hp.className_eq_ok_iff.2
  obtain ⟨fields, hfields⟩ := Placed.exists_of_forall RawMember.bytes
    (fun f hf _ => (exists_field_meant_iff hp).2 (h.fields f hf)) raw.fieldsOffset
  obtain ⟨methods, hmethods⟩ := Placed.exists_of_forall RawMember.bytes
    (fun m hm _ => (exists_method_meant_iff hp).2 (h.methods m hm)) raw.methodsOffset
  obtain ⟨as, has⟩ := Placed.exists_of_forall RawAttribute.bytes
    (fun a ha o => (h.attributes a ha).exists_means hp o) raw.attributesOffset
  obtain ⟨innerClasses, hinner⟩ := (exists_innerClasses_iff_of_placed hp has).2 h.innerClasses
  exact ⟨{
      bytes := raw.bytes, minor := raw.minor, major := raw.major, pool, flags := raw.flags,
      flagsOffset := raw.front.length, name, superName, interfaces, fields, methods, innerClasses },
    { minor := rfl
      major := rfl
      recent := UInt16.not_lt.2 h.recent
      pool := hpool
      flags := rfl
      offset := rfl
      name := hp.className_eq_ok_iff.2 hname
      superName := (optionally_eq_ok_iff fun _ => hp.className_eq_ok_iff).2 hsuper
      interfaces := hinterfaces
      fewInterfaces := h.fewInterfaces
      fields := hfields
      fewFields := h.fewFields
      methods := hmethods
      fewMethods := h.fewMethods
      attributes := ⟨as, has, hinner⟩
      fewAttributes := h.fewAttributes }, rfl⟩

/-- A description that means something is well-formed. -/
theorem Means.wellFormed (h : raw.Means c) : raw.WellFormed := by
  have hp : raw.pool.Describes c.pool := h.pool.describes
  obtain ⟨as, has, hfold⟩ := h.attributes
  exact {
    recent := UInt16.not_lt.1 h.recent
    pool := RawPool.wellFormed_iff.2 ⟨c.pool, h.pool⟩
    name := ⟨c.name, hp.className_eq_ok_iff.1 h.name⟩
    superName := ⟨c.superName, (optionally_eq_ok_iff fun _ => hp.className_eq_ok_iff).1 h.superName⟩
    fewInterfaces := h.fewInterfaces
    interfaces := h.interfaces.forall_mem fun _ _ name hname =>
      ⟨name, hp.className_eq_ok_iff.1 hname⟩
    fewFields := h.fewFields
    fields := h.fields.forall_mem fun _ _ f hmeant => (exists_field_meant_iff hp).1 ⟨f, hmeant⟩
    fewMethods := h.fewMethods
    methods := h.methods.forall_mem fun _ _ m hmeant => (exists_method_meant_iff hp).1 ⟨m, hmeant⟩
    fewAttributes := h.fewAttributes
    attributes := has.forall_mem fun _ _ _ hmeans => hmeans.wellFormed hp
    innerClasses := (exists_innerClasses_iff_of_placed hp has).1 ⟨_, hfold⟩ }

end RawClass

/-! ## The format -/

/-- **The reader accepts exactly the files of well-formed descriptions.** The file of a well-formed
description is read, and what is read is what the description says. A file that is read is that of
one well-formed description and of no other, and what is read is what that description says.

**Proof sketch.** The reader accepts the files of descriptions that mean something, which are the
well-formed ones, and it gives what they mean. Descriptions of one file agree, since a file is
written in one way. -/
theorem ClassFile.read_exactly :
    (∀ raw : RawClass, raw.WellFormed → ∃ c, read raw.bytes = .ok c ∧ raw.Describes c) ∧
      ∀ file c, read file = .ok c → ∃ raw : RawClass, raw.WellFormed ∧ raw.bytes = file ∧
        raw.Describes c ∧ ∀ raw' : RawClass, raw'.WellFormed → raw'.bytes = file → raw' = raw := by
  constructor
  · intro raw h
    obtain ⟨c, hmeans, hfile⟩ := h.exists_means
    exact ⟨c, read_eq_ok_iff.2 ⟨raw, hmeans, hfile, rfl⟩, hmeans.describes hfile⟩
  · intro file c h
    obtain ⟨raw, hmeans, hfile, hraw⟩ := read_eq_ok_iff.1 h
    have hbytes : c.bytes = raw.bytes := hfile.trans hraw.symm
    refine ⟨raw, hmeans.wellFormed, hraw, hmeans.describes hbytes, fun raw' hwell hraw' => ?_⟩
    exact RawClass.bytes_injective hwell.fits hmeans.wellFormed.fits (hraw'.trans hraw.symm)

/-- The small class has a description. -/
theorem ClassFile.read_exactly_sample :
    ∃ raw : RawClass, raw.WellFormed ∧ raw.bytes = Sample.file ∧ raw.Describes Sample.parsed := by
  obtain ⟨raw, hwell, hbytes, hdescribes, -⟩ :=
    read_exactly.2 Sample.file Sample.parsed Sample.read_file
  exact ⟨raw, hwell, hbytes, hdescribes⟩

end ClassAccess
