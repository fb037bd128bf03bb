import ClassAccess.ClassFile.Visitor
import ClassAccess.Proofs.ClassFile.Layout

/-!
# Rewriting a class file in place

New flag words and new code are written over the old ones, and nothing moves: the file that results
is written like the old one, with the new words and the new code in their places. Reading it again
gives the same class but for the flags.

## Main definitions

* `ClassFile.Answers` — a new flag word for every element and new code for the methods.
* `ClassFile.rewritten` — the file with the answers written into it.
* `ClassFile.updated` — the class with the answers.

## Main results

* `Placed.rewrite` — members that are rewritten in place stay in place.
* `ClassFile.read_rewritten` — a rewritten file reads as the class with the answers.
-/

set_option autoImplicit false

namespace ClassAccess

/-! ## Lists in place -/

section Placed

variable {α β ρ : Type} {write : ρ → List UInt8} {means : Nat → ρ → α → Prop}

/-- Rewriting a member that stands at offset `o` in a file: `put` exchanges the bytes of `raw` for
those of some `raw'` of the same length, which stands for `update a b`. -/
def Rewrites (write : ρ → List UInt8) (means : Nat → ρ → α → Prop)
    (put : List UInt8 → α → β → List UInt8) (update : α → β → α) (o : Nat) (raw : ρ) (a : α)
    (b : β) : Prop :=
  ∃ raw', (write raw').length = (write raw).length ∧ means o raw' (update a b) ∧
    ∀ pre post, pre.length = o → put (pre ++ (write raw ++ post)) a b = pre ++ (write raw' ++ post)

/-- **Members that are rewritten in place stay in place.**

**Proof sketch.** Induction on the members. The first one exchanges its own bytes only; after that
it belongs to what stands in front of the others. -/
theorem Placed.rewrite {put : List UInt8 → α → β → List UInt8} {update : α → β → α}
    {Fits : α → β → Prop} (step : ∀ o raw a b, means o raw a → Fits a b →
      Rewrites write means put update o raw a b)
    {o : Nat} {raws : List ρ} {as : List α} (h : Placed write means o raws as) :
    ∀ {bs : List β}, List.Forall₂ Fits as bs →
      ∃ raws', raws'.length = raws.length ∧
        (raws'.flatMap write).length = (raws.flatMap write).length ∧
        Placed write means o raws' (List.zipWith update as bs) ∧
        ∀ pre post, pre.length = o →
          (as.zip bs).foldl (fun out p => put out p.1 p.2) (pre ++ (raws.flatMap write ++ post)) =
            pre ++ (raws'.flatMap write ++ post) := by
  induction h with
  | nil o =>
    intro bs hbs
    cases hbs
    exact ⟨[], rfl, rfl, .nil o, fun _ _ _ => rfl⟩
  | @cons o raw a raws as head tail ih =>
    intro bs hbs
    cases hbs with
    | @cons _ b _ bs hb hbs =>
      obtain ⟨raw', hl, hmean, hput⟩ := step o raw a b head hb
      obtain ⟨raws', hn, hls, hp, hfold⟩ := ih hbs
      refine ⟨raw' :: raws', ?_, ?_, .cons hmean (hl ▸ hp), fun pre post ho => ?_⟩
      · rw [List.length_cons, List.length_cons, hn]
      · simp only [List.flatMap_cons, List.length_append, hl, hls]
      · simp only [List.zip_cons_cons, List.foldl_cons, List.flatMap_cons, List.append_assoc]
        rw [hput pre _ ho, ← List.append_assoc pre (write raw'), hfold (pre ++ write raw') post]
        · rw [List.append_assoc]
        · rw [List.length_append, ho, hl]

end Placed

/-! ## Members -/

/-- The field with another flag word. -/
def Field.withFlags (f : Field) (w : Flags) : Field := { f with flags := w }

/-- The method with another flag word. -/
def Method.withFlags (m : Method) (w : Flags) : Method := { m with flags := w }

/-- The inner class with another flag word. -/
def InnerClass.withFlags (i : InnerClass) (w : Flags) : InnerClass := { i with flags := w }

/-- A member with another flag word is written like it but for the word. -/
theorem RawMember.putFlags_bytes (raw : RawMember) (w : Flags) {pre : List UInt8} {o : Nat}
    (ho : pre.length = o) (post : List UInt8) :
    ClassFile.putFlags (pre ++ (raw.bytes ++ post)) o w =
      pre ++ (RawMember.bytes { raw with flags := w } ++ post) := by
  simp only [ClassFile.putFlags, RawMember.bytes, List.append_assoc]
  exact overwrite_append _ ho.symm rfl

/-- A new flag word of a field is written over the old one. -/
theorem Field.rewrites {pool : ConstantPool} (o : Nat) (raw : RawMember) (f : Field) (w : Flags)
    (h : Field.Meant pool o raw f) :
    Rewrites RawMember.bytes (Field.Meant pool)
      (fun out f w => ClassFile.putFlags out f.flagsOffset w) Field.withFlags o raw f w := by
  obtain ⟨as, hm⟩ := h
  refine ⟨{ raw with flags := w }, rfl, ⟨as, { hm with flags_eq := rfl }⟩, fun pre post ho => ?_⟩
  simp only [hm.flagsOffset_eq]
  exact raw.putFlags_bytes w ho post

/-- New code fills the place of the old one: there is some where there was, of the same length. -/
def Method.Fills (m : Method) (code : Option (List UInt8)) : Prop :=
  code.map List.length = m.code.map Span.length

/-- New code fits a method: it fills the place of the old one and is a row of instructions too. -/
def Method.Fits (m : Method) (code : Option (List UInt8)) : Prop :=
  m.Fills code ∧ ∀ bytes, code = some bytes → ∃ n, Code.count bytes = .ok n

/-- **Where the code of a method stands.** A method has no code, or the code is a part of what is
written, and other code of that length in its stead is the code of the same method. -/
theorem Method.Meant.code_cases {pool : ConstantPool} {o : Nat} {raw : RawMember} {m : Method}
    (h : Method.Meant pool o raw m) :
    m.code = none ∨ ∃ front code back, raw.bytes = front ++ (code ++ back) ∧ 2 ≤ front.length ∧
      0 < back.length ∧ m.code = some ⟨o + front.length, code.length⟩ ∧
      (∃ n, Code.count code = .ok n) ∧
      ∀ code' : List UInt8, code'.length = code.length → (∃ n, Code.count code' = .ok n) →
        ∃ raw' : RawMember, raw'.bytes = front ++ (code' ++ back) ∧ Method.Meant pool o raw' m := by
  obtain ⟨as, hm, hfold⟩ := h
  obtain ⟨-, hnone⟩ | ⟨as₁, a, as₂, rfl, hname, hspan, hother⟩ := foldlM_named hfold
  · exact .inl hnone
  obtain ⟨span, hspan, hcode⟩ := map_eq_ok_iff.1 hspan
  obtain ⟨frame, code, tail, hframe, hlt, hwalk, htail, rfl, hbody⟩ :=
    FileAttribute.codeSpan_eq_ok_iff.1 hspan
  obtain ⟨raws₁, ra, raws₂, hattrs, hra, hplaced⟩ := hm.attributes.exists_withBody
  have hrab : ra.body = frame ++ (longBytes (UInt32.ofNat code.length) ++ (code ++ tail)) := by
    rw [← hra.body, hbody]
  -- what stands in front of the code in its attribute, and in its member
  let inner := wordBytes ra.name ++ (longBytes (UInt32.ofNat ra.body.length) ++
    (frame ++ longBytes (UInt32.ofNat code.length)))
  let front := raw.beforeAttribute raws₁ ++ inner
  have hfront : front.length = 22 + (raws₁.flatMap RawAttribute.bytes).length := by
    simp only [front, inner, List.length_append, RawMember.length_beforeAttribute,
      length_wordBytes, length_longBytes, hframe]
    omega
  have hback : 0 < tail.length := by
    obtain ⟨handlers, table, raws, -, -, -, rfl⟩ := htail
    rw [List.length_append, length_wordBytes]
    omega
  refine .inr ⟨front, code, tail ++ raws₂.flatMap RawAttribute.bytes, ?_, by omega, ?_, ?_,
    hwalk, ?_⟩
  · have hbytes : ra.bytes = inner ++ (code ++ tail) := by
      simp only [inner, RawAttribute.bytes, hrab, List.append_assoc]
    rw [RawMember.bytes_eq_attribute hattrs, hbytes]
    simp only [front, List.append_assoc]
  · rw [List.length_append]
    omega
  · rw [← hcode, hra.offset, hfront]
    congr 2
    omega
  · intro code' hlen hwalk'
    let body' := frame ++ (longBytes (UInt32.ofNat code'.length) ++ (code' ++ tail))
    have hbody' : body'.length = ra.body.length := by
      simp only [body', hrab, List.length_append, length_longBytes, hlen]
    have hspan' : FileAttribute.codeSpan { a with body := body' } =
        .ok ⟨a.offset + 8, code.length⟩ :=
      FileAttribute.codeSpan_eq_ok_iff.2
        ⟨frame, code', tail, hframe, hlen ▸ hlt, hwalk', htail, by rw [hlen], rfl⟩
    have hfew : (raws₁ ++ { ra with body := body' } :: raws₂).length = raw.attributes.length := by
      rw [hattrs, List.length_append, List.length_append, List.length_cons, List.length_cons]
    refine ⟨{ raw with attributes := raws₁ ++ { ra with body := body' } :: raws₂ }, ?_,
      as₁ ++ { a with body := body' } :: as₂, ?_, ?_⟩
    · have hbytes : RawAttribute.bytes { ra with body := body' } = inner ++ (code' ++ tail) := by
        simp only [inner, RawAttribute.bytes, hbody']
        simp only [body', hlen, List.append_assoc]
      rw [RawMember.bytes_eq_attribute rfl, hbytes]
      simp only [front, RawMember.beforeAttribute, hfew, List.append_assoc]
    · exact { hm with few := hfew ▸ hm.few, attributes := hplaced body' hbody' }
    · refine hother { a with body := body' } m.code hname ?_
      show some <$> FileAttribute.codeSpan { a with body := body' } = _
      rw [hspan', ← hcode]
      rfl

/-- A member with another flag word means the method with it. -/
theorem Method.Meant.withFlags {pool : ConstantPool} {o : Nat} {raw : RawMember} {m : Method}
    (h : Method.Meant pool o raw m) (w : Flags) :
    Method.Meant pool o { raw with flags := w } (m.withFlags w) := by
  obtain ⟨as, hm, hfold⟩ := h
  exact ⟨as, { hm with flags_eq := rfl }, hfold⟩

/-- The flag word of a method stands where the method starts. -/
theorem Method.Meant.flagsOffset_eq {pool : ConstantPool} {o : Nat} {raw : RawMember} {m : Method}
    (h : Method.Meant pool o raw m) : m.flagsOffset = o := by
  obtain ⟨as, hm, -⟩ := h
  exact hm.flagsOffset_eq

/-- The file with the answers about one method written into it. -/
def ClassFile.putMethod (out : List UInt8) (m : Method) (answer : Flags × Option (List UInt8)) :
    List UInt8 :=
  putFlags (putCode out m.code answer.2) m.flagsOffset answer.1

/-- A new flag word and new code of a method are written over the old ones. -/
theorem Method.rewrites {pool : ConstantPool} (o : Nat) (raw : RawMember) (m : Method)
    (answer : Flags × Option (List UInt8)) (h : Method.Meant pool o raw m) (hf : m.Fits answer.2) :
    Rewrites RawMember.bytes (Method.Meant pool) ClassFile.putMethod
      (fun m answer => m.withFlags answer.1) o raw m answer := by
  obtain ⟨w, code'⟩ := answer
  obtain hnone | ⟨front, code, back, hbytes, -, -, hcode, -, hother⟩ := h.code_cases
  · refine ⟨{ raw with flags := w }, rfl, h.withFlags w, fun pre post ho => ?_⟩
    simp only [ClassFile.putMethod, hnone, ClassFile.putCode, h.flagsOffset_eq]
    exact raw.putFlags_bytes w ho post
  · cases code' with
    | none =>
      rw [Method.Fits, Method.Fills, hcode] at hf
      cases hf.1
    | some code' =>
      rw [Method.Fits, Method.Fills, hcode] at hf
      have hlen : code'.length = code.length := Option.some.inj hf.1
      obtain ⟨raw', hbytes', hmean'⟩ := hother code' hlen (hf.2 code' rfl)
      refine ⟨{ raw' with flags := w }, ?_, hmean'.withFlags w, fun pre post ho => ?_⟩
      · have hl : raw'.bytes.length = raw.bytes.length := by
          simp only [hbytes, hbytes', List.length_append, hlen]
        exact hl
      · have hput : ClassFile.putCode (pre ++ (raw.bytes ++ post)) m.code (some code') =
            pre ++ (raw'.bytes ++ post) := by
          rw [hcode, hbytes, hbytes', ClassFile.putCode]
          simp only [List.append_assoc]
          rw [← List.append_assoc pre, ← List.append_assoc pre]
          exact overwrite_append _ (by rw [List.length_append, ho]) hlen
        simp only [ClassFile.putMethod, hput, h.flagsOffset_eq]
        exact raw'.putFlags_bytes w ho post

/-! ## Inner classes -/

/-- A new flag word of an inner class is written over the old one. -/
theorem InnerClass.rewrites {pool : ConstantPool} (o : Nat) (raw : RawInnerClass) (i : InnerClass)
    (w : Flags) (h : RawInnerClass.Means pool o raw i) :
    Rewrites RawInnerClass.bytes (RawInnerClass.Means pool)
      (fun out i w => ClassFile.putFlags out i.flagsOffset w) InnerClass.withFlags o raw i w := by
  refine ⟨{ raw with flags := w }, rfl, { h with flags := rfl }, fun pre post ho => ?_⟩
  simp only [ClassFile.putFlags, h.offset, RawInnerClass.bytes, List.append_assoc]
  have hassoc : ∀ x : List UInt8, pre ++ (wordBytes raw.name ++ (wordBytes raw.outer ++
      (wordBytes raw.simpleName ++ x))) = (pre ++ (wordBytes raw.name ++ (wordBytes raw.outer ++
      wordBytes raw.simpleName))) ++ x := by
    intro x
    simp only [List.append_assoc]
  rw [hassoc, hassoc]
  refine overwrite_append _ ?_ rfl
  rw [List.length_append, ho]
  rfl

/-- Any list fits another one of its length if nothing else is asked for. -/
theorem forall₂_true {α β : Type} {as : List α} {bs : List β} (h : bs.length = as.length) :
    List.Forall₂ (fun _ _ => True) as bs :=
  List.forall₂_iff_zip.2 ⟨h.symm, fun _ => trivial⟩

/-- New flag words of inner classes are written over the old ones, in the attribute that the inner
classes are from. -/
theorem ClassFile.rewrite_innerClasses {pool : ConstantPool} {o : Nat} {raws : List RawAttribute}
    {as : List FileAttribute} {is : List InnerClass} {ws : List Flags}
    (h : Placed RawAttribute.bytes (RawAttribute.Means pool) o raws as)
    (hfold : as.foldlM (withAttribute pool) [] = .ok is) (hws : ws.length = is.length) :
    ∃ raws', raws'.length = raws.length ∧
      (∃ as', Placed RawAttribute.bytes (RawAttribute.Means pool) o raws' as' ∧
        as'.foldlM (withAttribute pool) [] = .ok (List.zipWith InnerClass.withFlags is ws)) ∧
      ∀ pre post, pre.length = o →
        (is.zip ws).foldl (fun out p => putFlags out p.1.flagsOffset p.2)
            (pre ++ (raws.flatMap RawAttribute.bytes ++ post)) =
          pre ++ (raws'.flatMap RawAttribute.bytes ++ post) := by
  obtain ⟨-, rfl⟩ | ⟨as₁, a, as₂, rfl, hname, his, hother⟩ := foldlM_named hfold
  · exact ⟨raws, rfl, ⟨as, h, hfold⟩, fun _ _ _ => rfl⟩
  obtain ⟨raws₁, ra, raws₂, rfl, hra, hplaced'⟩ := h.exists_withBody
  obtain ⟨ris, hlt, hplaced, hbody⟩ := FileAttribute.innerClasses_eq_ok_iff.1 his
  obtain ⟨ris', hn, hl, hmeans, hput⟩ := hplaced.rewrite
    (fun o raw i w hi (_ : True) => InnerClass.rewrites o raw i w hi) (forall₂_true hws)
  let body' := counted RawInnerClass.bytes ris'
  have hbody' : body'.length = ra.body.length := by
    rw [← hra.body, hbody, length_counted, length_counted, hl]
  have his' : FileAttribute.innerClasses pool { a with body := body' } =
      .ok (List.zipWith InnerClass.withFlags is ws) :=
    FileAttribute.innerClasses_eq_ok_iff.2 ⟨ris', hn ▸ hlt, hmeans, rfl⟩
  refine ⟨raws₁ ++ { ra with body := body' } :: raws₂, ?_,
    ⟨as₁ ++ { a with body := body' } :: as₂, hplaced' body' hbody', hother _ _ hname his'⟩,
    fun pre post ho => ?_⟩
  · rw [List.length_append, List.length_append, List.length_cons, List.length_cons]
  · -- the inner classes stand behind the head of their attribute and their number
    have hshape : ∀ ra'' : RawAttribute, ra''.name = ra.name → ∀ rs : List RawInnerClass,
        ra''.body = counted RawInnerClass.bytes rs → rs.length = ris.length →
        ra''.body.length = ra.body.length →
        pre ++ ((raws₁ ++ ra'' :: raws₂).flatMap RawAttribute.bytes ++ post) =
          (pre ++ (raws₁.flatMap RawAttribute.bytes ++ (wordBytes ra.name ++
            (longBytes (UInt32.ofNat ra.body.length) ++ wordBytes (UInt16.ofNat ris.length))))) ++
          (rs.flatMap RawInnerClass.bytes ++ (raws₂.flatMap RawAttribute.bytes ++ post)) := by
      intro ra'' hnm rs hbd hrs hlen
      have hb : ra''.bytes = wordBytes ra.name ++ (longBytes (UInt32.ofNat ra.body.length) ++
          counted RawInnerClass.bytes rs) := by
        rw [RawAttribute.bytes, hnm, hlen, hbd]
      simp only [List.flatMap_append, List.flatMap_cons, hb, counted, hrs, List.append_assoc]
    rw [hshape ra rfl ris (hra.body.symm.trans hbody) rfl rfl,
      hshape { ra with body := body' } rfl ris' rfl hn hbody']
    refine hput _ _ ?_
    simp only [List.length_append, length_wordBytes, length_longBytes, ho, hra.offset]
    omega

/-! ## Whole files -/

namespace ClassFile

/-- What a visit to every element of a class gives. -/
structure Answers where
  /-- The flag word of the class. -/
  flags : Flags
  /-- The flag words of its fields. -/
  fields : List Flags
  /-- The flag words of its methods and their code. -/
  methods : List (Flags × Option (List UInt8))
  /-- The flag words of the inner classes that it mentions. -/
  innerClasses : List Flags
deriving DecidableEq

/-- The answers are about the elements of the class: there is one for each, and new code fits. -/
structure Fits (c : ClassFile) (a : Answers) : Prop where
  /-- There is a flag word for every field. -/
  fields : a.fields.length = c.fields.length
  /-- There is an answer that fits for every method. -/
  methods : List.Forall₂ (fun m answer => m.Fits answer.2) c.methods a.methods
  /-- There is a flag word for every inner class. -/
  innerClasses : a.innerClasses.length = c.innerClasses.length

/-- The file of a class with the answers written into it. -/
def rewritten (c : ClassFile) (a : Answers) : List UInt8 :=
  let out := putFlags c.bytes c.flagsOffset a.flags
  let out := (c.fields.zip a.fields).foldl (fun out p => putFlags out p.1.flagsOffset p.2) out
  let out := (c.methods.zip a.methods).foldl (fun out p => putMethod out p.1 p.2) out
  (c.innerClasses.zip a.innerClasses).foldl (fun out p => putFlags out p.1.flagsOffset p.2) out

/-- The class with the answers. -/
def updated (c : ClassFile) (a : Answers) : ClassFile :=
  { c with
    bytes := c.rewritten a
    flags := a.flags
    fields := List.zipWith Field.withFlags c.fields a.fields
    methods := List.zipWith (fun m answer => m.withFlags answer.1) c.methods a.methods
    innerClasses := List.zipWith InnerClass.withFlags c.innerClasses a.innerClasses }

/-- **A rewritten file is written like the class with the answers.** -/
theorem exists_raw_rewritten {raw : RawClass} {c : ClassFile} {a : Answers} (h : raw.Means c)
    (hb : c.bytes = raw.bytes) (ha : c.Fits a) :
    ∃ raw' : RawClass, raw'.Means (c.updated a) ∧ raw'.bytes = c.rewritten a := by
  obtain ⟨fields', hfn, hfl, hfp, hfput⟩ := h.fields.rewrite
    (fun o raw f w hf (_ : True) => Field.rewrites o raw f w hf) (forall₂_true ha.fields)
  obtain ⟨methods', hmn, hml, hmp, hmput⟩ := h.methods.rewrite
    (fun o raw m answer hm hfit => Method.rewrites o raw m answer hm hfit) ha.methods
  obtain ⟨as, has, hfold⟩ := h.attributes
  obtain ⟨attributes', han, hattrs', haput⟩ := rewrite_innerClasses has hfold ha.innerClasses
  let raw' : RawClass := { raw with
    flags := a.flags, fields := fields', methods := methods', attributes := attributes' }
  have hfront : raw'.front = raw.front := rfl
  have hmiddle : raw'.middle = raw.middle := by
    simp only [RawClass.middle, raw', hfn]
  have hfo : raw'.fieldsOffset = raw.fieldsOffset := by
    simp only [RawClass.fieldsOffset, hfront, hmiddle]
  have hmo : raw'.methodsOffset = raw.methodsOffset := by
    simp only [RawClass.methodsOffset, hfo, raw', hfl]
  have hao : raw'.attributesOffset = raw.attributesOffset := by
    simp only [RawClass.attributesOffset, hmo, raw', hml]
  refine ⟨raw', ?_, ?_⟩
  · exact { h with
      flags := rfl
      fields := hfo ▸ hfp
      fewFields := hfn ▸ h.fewFields
      methods := hmo ▸ hmp
      fewMethods := hmn ▸ h.fewMethods
      attributes := hao ▸ hattrs'
      fewAttributes := han ▸ h.fewAttributes }
  · have hflags : putFlags c.bytes c.flagsOffset a.flags = raw'.beforeFields ++
        (raw.fields.flatMap RawMember.bytes ++ (counted RawMember.bytes raw.methods ++
          counted RawAttribute.bytes raw.attributes)) := by
      have hword : (wordBytes a.flags).length = (wordBytes raw.flags).length := rfl
      rw [hb, RawClass.bytes, putFlags, overwrite_append _ h.offset hword, RawClass.beforeFields,
        hfront, hmiddle]
      simp only [raw', List.append_assoc]
    -- by the time that the methods are rewritten, the new fields stand in front of them
    have hstart₂ : raw'.beforeFields ++ (fields'.flatMap RawMember.bytes ++
        (counted RawMember.bytes raw.methods ++ counted RawAttribute.bytes raw.attributes)) =
          raw'.beforeMethods ++ (raw.methods.flatMap RawMember.bytes ++
            counted RawAttribute.bytes raw.attributes) := by
      simp only [RawClass.beforeMethods, raw', counted, hmn, List.append_assoc]
    have hstart₃ : raw'.beforeMethods ++ (methods'.flatMap RawMember.bytes ++
        counted RawAttribute.bytes raw.attributes) =
          raw'.beforeAttributes ++ (raw.attributes.flatMap RawAttribute.bytes ++ []) := by
      simp only [RawClass.beforeAttributes, raw', counted, han, List.append_assoc, List.append_nil]
    rw [rewritten, hflags, hfput _ _ (raw'.length_beforeFields.trans hfo), hstart₂,
      hmput _ _ (raw'.length_beforeMethods.trans hmo), hstart₃,
      haput _ _ (raw'.length_beforeAttributes.trans hao)]
    exact raw'.bytes_eq_attributes

/-- **Reading a rewritten file gives the class with the answers.** -/
theorem read_rewritten {file : List UInt8} {c : ClassFile} {a : Answers} (h : read file = .ok c)
    (ha : c.Fits a) : read (c.rewritten a) = .ok (c.updated a) := by
  obtain ⟨raw, hmean, hfile, hraw⟩ := read_eq_ok_iff.1 h
  obtain ⟨raw', hmean', hraw'⟩ := exists_raw_rewritten hmean (hfile.trans hraw.symm) ha
  exact read_eq_ok_iff.2 ⟨raw', hmean', rfl, hraw'⟩

end ClassFile

end ClassAccess
