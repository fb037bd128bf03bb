import ClassAccess.Proofs.ClassFile.Layout

/-!
# A file is written in one way

No two things are written alike, even if something follows them: what is written tells where it
ends. A word ends after its two bytes, a counted list after as many members as it says, and the
entries of a constant pool when they fill its slots.

## Main definitions

* `Unambiguous` — what a writer writes can be told apart, whatever follows.

## Main results

* `Unambiguous.flatMap`, `Unambiguous.counted` — lists of what can be told apart.
* `RawPool.unambiguous` — constant pools can be told apart.
* `RawClass.bytes_injective` — class files are written in one way.

## Design

The last part of a list or of a record does not have to be looked at for the others to be told
apart. This is why `Unambiguous` speaks of what follows: it passes through appending without a side
condition, where injectivity alone does not.
-/

set_option autoImplicit false

namespace ClassAccess

/-! ## Telling apart -/

/-- What is written can be told apart, whatever follows, as long as it is `good`. -/
def Unambiguous {ρ : Type} (write : ρ → List UInt8) (good : ρ → Prop) : Prop :=
  ∀ ⦃r r' : ρ⦄ ⦃x y : List UInt8⦄, good r → good r' → write r ++ x = write r' ++ y → r = r' ∧ x = y

/-- Words can be told apart. -/
theorem unambiguous_wordBytes : Unambiguous wordBytes fun _ => True := by
  intro v w x y _ _ h
  obtain ⟨hword, hrest⟩ := List.append_inj h rfl
  exact ⟨wordBytes_injective hword, hrest⟩

/-- So can long words. -/
theorem unambiguous_longBytes : Unambiguous longBytes fun _ => True := by
  intro v w x y _ _ h
  obtain ⟨hlong, hrest⟩ := List.append_inj h rfl
  refine ⟨?_, hrest⟩
  rw [← UInt32.toNat_inj, ← bigEndian_longBytes, hlong, bigEndian_longBytes]

section Lists

variable {ρ : Type} {write : ρ → List UInt8} {good : ρ → Prop}

/-- **Lists of the same length can be told apart** if their members can. -/
theorem Unambiguous.flatMap (hwrite : Unambiguous write good) {rs rs' : List ρ} {x y : List UInt8}
    (hlength : rs.length = rs'.length) (hgood : ∀ r ∈ rs, good r) (hgood' : ∀ r ∈ rs', good r)
    (h : rs.flatMap write ++ x = rs'.flatMap write ++ y) : rs = rs' ∧ x = y := by
  induction rs generalizing rs' with
  | nil =>
    cases rs' with
    | nil => exact ⟨rfl, h⟩
    | cons r' rs' => cases hlength
  | cons r rs ih =>
    cases rs' with
    | nil => cases hlength
    | cons r' rs' =>
      obtain ⟨hr, hrs⟩ := List.forall_mem_cons.1 hgood
      obtain ⟨hr', hrs'⟩ := List.forall_mem_cons.1 hgood'
      rw [List.flatMap_cons, List.flatMap_cons, List.append_assoc, List.append_assoc] at h
      obtain ⟨rfl, htail⟩ := hwrite hr hr' h
      obtain ⟨rfl, hrest⟩ := ih (Nat.succ.inj hlength) hrs hrs' htail
      exact ⟨rfl, hrest⟩

/-- **Counted lists can be told apart** if their members can. -/
theorem Unambiguous.counted (hwrite : Unambiguous write good) :
    Unambiguous (counted write) fun rs => rs.length < 0x10000 ∧ ∀ r ∈ rs, good r := by
  intro rs rs' x y ⟨hfew, hgood⟩ ⟨hfew', hgood'⟩ h
  rw [ClassAccess.counted, ClassAccess.counted, List.append_assoc, List.append_assoc] at h
  obtain ⟨hcount, h⟩ := unambiguous_wordBytes trivial trivial h
  have hlength : rs.length = rs'.length := by
    have hnat := congrArg UInt16.toNat hcount
    rwa [UInt16.toNat_ofNat_of_lt' hfew, UInt16.toNat_ofNat_of_lt' hfew'] at hnat
  exact hwrite.flatMap hlength hgood hgood' h

end Lists

/-! ## Constant pools -/

namespace RawConstant

/-- The tag of an entry. -/
def tag : RawConstant → UInt8
  | utf8 _ => 1
  | classRef _ => 7
  | fieldRef _ _ => 9
  | methodRef _ _ => 10
  | interfaceMethodRef _ _ => 11
  | nameAndType _ _ => 12
  | other tag _ => tag

/-- The bytes behind the tag of an entry. -/
def contents : RawConstant → List UInt8
  | utf8 encoded => wordBytes (UInt16.ofNat encoded.length) ++ encoded
  | classRef name => wordBytes name
  | fieldRef owner member => wordBytes owner ++ wordBytes member
  | methodRef owner member => wordBytes owner ++ wordBytes member
  | interfaceMethodRef owner member => wordBytes owner ++ wordBytes member
  | nameAndType name descriptor => wordBytes name ++ wordBytes descriptor
  | other _ contents => contents

/-- An entry is its tag and what follows it. -/
theorem bytes_eq_cons (raw : RawConstant) : raw.bytes = raw.tag :: raw.contents := by
  cases raw <;> rfl

/-- The entry says something. -/
def Meant (raw : RawConstant) : Prop := ∃ k, raw.meaning? = some k

/-- A text that says something fits its length word. -/
theorem Meant.length_lt {encoded : List UInt8} (h : Meant (utf8 encoded)) :
    encoded.length < 0x10000 := by
  obtain ⟨k, hk⟩ := h
  exact (meaning?_utf8_eq_some_iff.1 hk).1

/-- The contents of an entry of another kind have the length of the kind. -/
theorem Meant.otherLength? {tag : UInt8} {contents : List UInt8} (h : Meant (other tag contents)) :
    Constant.otherLength? tag = some contents.length := by
  obtain ⟨k, hk⟩ := h
  exact (meaning?_other_eq_some_iff.1 hk).1

/-- The tag of an entry of another kind is none of those that are told apart. -/
theorem Meant.tag_ne {tag : UInt8} {contents : List UInt8} (h : Meant (other tag contents))
    {known : UInt8} (hknown : Constant.otherLength? known = none) : tag ≠ known := by
  rintro rfl
  rw [h.otherLength?] at hknown
  cases hknown

/-- Two words can be told apart. -/
theorem twoWords_inj {v w v' w' : UInt16} {x y : List UInt8}
    (h : wordBytes v ++ wordBytes w ++ x = wordBytes v' ++ wordBytes w' ++ y) :
    v = v' ∧ w = w' ∧ x = y := by
  rw [List.append_assoc, List.append_assoc] at h
  obtain ⟨hv, h₁⟩ := unambiguous_wordBytes trivial trivial h
  exact ⟨hv, unambiguous_wordBytes trivial trivial h₁⟩

/-- **Entries can be told apart**: their tags fix their kinds, and an entry of a kind tells where it
ends. -/
theorem unambiguous : Unambiguous bytes Meant := by
  intro raw raw' x y hraw hraw' h
  rw [bytes_eq_cons, bytes_eq_cons, List.cons_append, List.cons_append, List.cons.injEq] at h
  obtain ⟨htag, hcontents⟩ := h
  cases raw with
  | utf8 encoded =>
    cases raw' with
    | utf8 encoded' =>
      simp only [contents, List.append_assoc] at hcontents
      obtain ⟨hsize, h₁⟩ := unambiguous_wordBytes trivial trivial hcontents
      have hlength : encoded.length = encoded'.length := by
        have hnat := congrArg UInt16.toNat hsize
        rwa [UInt16.toNat_ofNat_of_lt' hraw.length_lt, UInt16.toNat_ofNat_of_lt' hraw'.length_lt]
          at hnat
      obtain ⟨rfl, hrest⟩ := List.append_inj h₁ hlength
      exact ⟨rfl, hrest⟩
    | other tag' contents' => exact absurd htag.symm (hraw'.tag_ne rfl)
    | _ => cases htag
  | classRef name =>
    cases raw' with
    | classRef name' =>
      obtain ⟨rfl, hrest⟩ := unambiguous_wordBytes trivial trivial hcontents
      exact ⟨rfl, hrest⟩
    | other tag' contents' => exact absurd htag.symm (hraw'.tag_ne rfl)
    | _ => cases htag
  | fieldRef v w | methodRef v w | interfaceMethodRef v w | nameAndType v w =>
    -- the tag leaves an entry of the same kind and one that is not told apart
    cases raw' <;> try (cases htag; done)
    · obtain ⟨rfl, rfl, hrest⟩ := twoWords_inj hcontents
      exact ⟨rfl, hrest⟩
    · exact absurd htag.symm (hraw'.tag_ne rfl)
  | other tag contents =>
    cases raw' with
    | other tag' contents' =>
      simp only [RawConstant.tag] at htag
      subst htag
      have hlength : contents.length = contents'.length := by
        rw [← Option.some.injEq, ← hraw.otherLength?, hraw'.otherLength?]
      obtain ⟨rfl, hrest⟩ := List.append_inj hcontents hlength
      exact ⟨rfl, hrest⟩
    | _ => exact absurd htag (hraw.tag_ne rfl)

end RawConstant

/-- Entries that fill the same number of slots can be told apart, whatever follows.

**Proof sketch.** Induction on the entries of one side. Equal entries leave equal numbers of slots,
so that neither side can go on where the other one has ended. -/
theorem Constant.Fill.unambiguous {n : Nat} {raws raws' : List RawConstant} {ks ks' : List Constant}
    {x y : List UInt8} (hks : List.Forall₂ (fun raw k => raw.meaning? = some k) raws ks)
    (hks' : List.Forall₂ (fun raw k => raw.meaning? = some k) raws' ks') (hfill : Fill n ks)
    (hfill' : Fill n ks')
    (h : raws.flatMap RawConstant.bytes ++ x = raws'.flatMap RawConstant.bytes ++ y) :
    raws = raws' ∧ x = y := by
  induction hks generalizing n raws' ks' with
  | nil =>
    cases n with
    | succ n => exact hfill.elim
    | zero =>
      cases hks' with
      | cons _ _ => exact hfill'.elim
      | nil => exact ⟨rfl, h⟩
  | @cons raw k raws ks hk _ ih =>
    cases n with
    | zero => exact hfill.elim
    | succ n =>
      cases hks' with
      | nil => exact hfill'.elim
      | @cons raw' k' raws' ks' hk' htail' =>
        rw [List.flatMap_cons, List.flatMap_cons, List.append_assoc, List.append_assoc] at h
        obtain ⟨rfl, htail⟩ := RawConstant.unambiguous ⟨k, hk⟩ ⟨k', hk'⟩ h
        obtain rfl : k = k' := Option.some.inj (hk.symm.trans hk')
        obtain ⟨rfl, hrest⟩ := ih htail' hfill hfill' htail
        exact ⟨rfl, hrest⟩

/-- **Constant pools can be told apart.** -/
theorem RawPool.unambiguous : Unambiguous RawPool.bytes fun raw => ∃ pool, raw.Means pool := by
  rintro ⟨count, constants⟩ ⟨count', constants'⟩ x y ⟨pool, ks, hks, hfill, -⟩
    ⟨pool', ks', hks', hfill', -⟩ h
  simp only [RawPool.bytes, List.append_assoc] at h
  obtain ⟨rfl, h₁⟩ := unambiguous_wordBytes trivial trivial h
  obtain ⟨rfl, hrest⟩ := Constant.Fill.unambiguous (RawConstant.map_meaning?_eq_iff.1 hks)
    (RawConstant.map_meaning?_eq_iff.1 hks') hfill hfill' h₁
  exact ⟨rfl, hrest⟩

/-! ## Attributes and members -/

/-- The length of the contents fits its word. -/
def RawAttribute.Fits (raw : RawAttribute) : Prop := raw.body.length < 0x100000000

/-- Attributes can be told apart. -/
theorem RawAttribute.unambiguous : Unambiguous RawAttribute.bytes RawAttribute.Fits := by
  intro raw raw' x y hfits hfits' h
  obtain ⟨name, body⟩ := raw
  obtain ⟨name', body'⟩ := raw'
  simp only [RawAttribute.Fits] at hfits hfits'
  simp only [RawAttribute.bytes, List.append_assoc] at h
  obtain ⟨rfl, h₁⟩ := unambiguous_wordBytes trivial trivial h
  obtain ⟨hsize, h₂⟩ := unambiguous_longBytes trivial trivial h₁
  have hlength : body.length = body'.length := by
    have hnat := congrArg UInt32.toNat hsize
    rwa [UInt32.toNat_ofNat_of_lt' hfits, UInt32.toNat_ofNat_of_lt' hfits'] at hnat
  obtain ⟨rfl, hrest⟩ := List.append_inj h₂ hlength
  exact ⟨rfl, hrest⟩

/-- The attributes of a member and their number fit their words. -/
structure RawMember.Fits (raw : RawMember) : Prop where
  /-- The number of attributes fits its word. -/
  few : raw.attributes.length < 0x10000
  /-- So does each of them. -/
  attributes : ∀ a ∈ raw.attributes, a.Fits

/-- Fields and methods can be told apart. -/
theorem RawMember.unambiguous : Unambiguous RawMember.bytes RawMember.Fits := by
  intro raw raw' x y hfits hfits' h
  obtain ⟨flags, name, descriptor, attributes⟩ := raw
  obtain ⟨flags', name', descriptor', attributes'⟩ := raw'
  simp only [RawMember.bytes, List.append_assoc] at h
  obtain ⟨rfl, h₁⟩ := unambiguous_wordBytes trivial trivial h
  obtain ⟨rfl, h₂⟩ := unambiguous_wordBytes trivial trivial h₁
  obtain ⟨rfl, h₃⟩ := unambiguous_wordBytes trivial trivial h₂
  obtain ⟨rfl, hrest⟩ := RawAttribute.unambiguous.counted ⟨hfits.few, hfits.attributes⟩
    ⟨hfits'.few, hfits'.attributes⟩ h₃
  exact ⟨rfl, hrest⟩

/-! ## Classes -/

/-- The parts of a class and their numbers fit their words, and its constant pool means
something. -/
structure RawClass.Fits (raw : RawClass) : Prop where
  /-- The entries of the pool mean something and fill its slots. -/
  pool : ∃ pool, raw.pool.Means pool
  /-- The number of interfaces fits its word. -/
  interfaces : raw.interfaces.length < 0x10000
  /-- So does the number of fields. -/
  fewFields : raw.fields.length < 0x10000
  /-- The fields fit. -/
  fields : ∀ f ∈ raw.fields, f.Fits
  /-- The number of methods fits its word. -/
  fewMethods : raw.methods.length < 0x10000
  /-- The methods fit. -/
  methods : ∀ m ∈ raw.methods, m.Fits
  /-- The number of attributes fits its word. -/
  fewAttributes : raw.attributes.length < 0x10000
  /-- The attributes fit. -/
  attributes : ∀ a ∈ raw.attributes, a.Fits

/-- **Class files are written in one way.** -/
theorem RawClass.bytes_injective {raw raw' : RawClass} (hfits : raw.Fits) (hfits' : raw'.Fits)
    (h : raw.bytes = raw'.bytes) : raw = raw' := by
  simp only [bytes_eq_counted, front, List.append_assoc] at h
  obtain ⟨minor, major, pool, flags, name, superName, interfaces, fields, methods,
    attributes⟩ := raw
  obtain ⟨minor', major', pool', flags', name', superName', interfaces', fields', methods',
    attributes'⟩ := raw'
  have h₁ := List.append_cancel_left h
  obtain ⟨rfl, h₂⟩ := unambiguous_wordBytes trivial trivial h₁
  obtain ⟨rfl, h₃⟩ := unambiguous_wordBytes trivial trivial h₂
  obtain ⟨rfl, h₄⟩ := RawPool.unambiguous hfits.pool hfits'.pool h₃
  obtain ⟨rfl, h₅⟩ := unambiguous_wordBytes trivial trivial h₄
  obtain ⟨rfl, h₆⟩ := unambiguous_wordBytes trivial trivial h₅
  obtain ⟨rfl, h₇⟩ := unambiguous_wordBytes trivial trivial h₆
  obtain ⟨rfl, h₈⟩ := unambiguous_wordBytes.counted ⟨hfits.interfaces, fun _ _ => trivial⟩
    ⟨hfits'.interfaces, fun _ _ => trivial⟩ h₇
  obtain ⟨rfl, h₉⟩ := RawMember.unambiguous.counted ⟨hfits.fewFields, hfits.fields⟩
    ⟨hfits'.fewFields, hfits'.fields⟩ h₈
  obtain ⟨rfl, h₁₀⟩ := RawMember.unambiguous.counted ⟨hfits.fewMethods, hfits.methods⟩
    ⟨hfits'.fewMethods, hfits'.methods⟩ h₉
  -- nothing follows the attributes
  rw [← List.append_nil (counted _ attributes), ← List.append_nil (counted _ attributes')] at h₁₀
  obtain ⟨rfl, -⟩ := RawAttribute.unambiguous.counted ⟨hfits.fewAttributes, hfits.attributes⟩
    ⟨hfits'.fewAttributes, hfits'.attributes⟩ h₁₀
  rfl

end ClassAccess
