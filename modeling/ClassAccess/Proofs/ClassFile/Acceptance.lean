import ClassAccess.Proofs.ClassFile.Regions

/-!
# What accepting a visitor does

A visitor is asked about each element, and about each method with the code that the method has in
the file that was read. All answers are then written into their own places, which lie apart from one
another; nothing else changes.

## Main definitions

* `Always` — a property of whatever a computation gives.
* `Visitor.KeepsLength` — a visitor gives code of the length that it was handed.
* `ClassFile.ask` — the answers of a visitor.
* `ClassFile.patches` — the answers with their places.

## Main results

* `ClassFile.accept_eq` — accepting a visitor is asking it and writing the answers.
* `ClassFile.of_rewritten` — the answers are in their places in the end.
* `ClassFile.exists_patch_of_ne` — only answers change a file.

## Design

The monad of the visitor is any lawful one, so that nothing is said here about errors or notes.
-/

set_option autoImplicit false

namespace ClassAccess

/-! ## Answers with their places -/

/-- The new code of a method with its place. -/
def Method.codePatch? (m : Method) (code : Option (List UInt8)) : Option Patch :=
  match m.code, code with
  | some span, some code => some ⟨span.start, code⟩
  | _, _ => none

/-- The new code and the new flag word of a method with their places. -/
def Method.patches (m : Method) (answer : Flags × Option (List UInt8)) : List Patch :=
  (m.codePatch? answer.2).toList ++ [⟨m.flagsOffset, wordBytes answer.1⟩]

/-- Writing the answer about a method is patching. -/
theorem ClassFile.putMethod_eq (out : List UInt8) (m : Method)
    (answer : Flags × Option (List UInt8)) :
    putMethod out m answer = patched out (m.patches answer) := by
  obtain ⟨_, _, _, _, span?⟩ := m
  obtain ⟨_, code⟩ := answer
  cases span? <;> cases code <;> rfl

/-- Code that fills its place is written over it. -/
theorem Method.map_span_codePatch? {m : Method} {code : Option (List UInt8)} (h : m.Fills code) :
    (m.codePatch? code).map Patch.span = m.code := by
  obtain ⟨_, _, _, _, span?⟩ := m
  cases span? with
  | none => rfl
  | some span =>
    cases code with
    | none => cases h
    | some code =>
      have hlen : code.length = span.length := Option.some.inj h
      show some (⟨span.start, code.length⟩ : Span) = some span
      rw [hlen]

/-- The answer about a method is written into the regions of the method. -/
theorem Method.perm_patches {m : Method} {answer : Flags × Option (List UInt8)}
    (h : m.Fills answer.2) : ((m.patches answer).map Patch.span).Perm m.regions := by
  rw [Method.patches, Method.regions, List.map_append, ← Option.toList_map, map_span_codePatch? h]
  exact List.perm_append_comm

namespace ClassFile

/-- The answers about a class with their places. -/
def patches (c : ClassFile) (a : Answers) : List Patch :=
  ⟨c.flagsOffset, wordBytes a.flags⟩ ::
    ((c.fields.zip a.fields).map (fun p => ⟨p.1.flagsOffset, wordBytes p.2⟩) ++
      ((c.methods.zip a.methods).flatMap (fun p => p.1.patches p.2) ++
        (c.innerClasses.zip a.innerClasses).map fun p => ⟨p.1.flagsOffset, wordBytes p.2⟩))

/-- Writing the answers about methods is patching. -/
theorem foldl_putMethod (answers : List (Method × (Flags × Option (List UInt8))))
    (out : List UInt8) :
    answers.foldl (fun out p => putMethod out p.1 p.2) out =
      patched out (answers.flatMap fun p => p.1.patches p.2) := by
  induction answers generalizing out with
  | nil => rfl
  | cons p answers ih =>
    rw [List.foldl_cons, putMethod_eq, ih, List.flatMap_cons, patched_append]

/-- Writing the answers is patching. -/
theorem rewritten_eq (c : ClassFile) (a : Answers) :
    c.rewritten a = patched c.bytes (c.patches a) := by
  simp only [rewritten, foldl_putMethod]
  simp only [patches, patched, List.foldl_cons, List.foldl_append, List.foldl_map]
  rfl

/-- Rewriting keeps the length of the file. -/
theorem length_rewritten (c : ClassFile) (a : Answers) :
    (c.rewritten a).length = c.bytes.length := by
  rw [rewritten_eq, length_patched]

/-- There is an answer for every element, and new code fills the place of the old one. -/
structure Fills (c : ClassFile) (a : Answers) : Prop where
  /-- There is a flag word for every field. -/
  fields : a.fields.length = c.fields.length
  /-- There is an answer for every method, and code that fills its place. -/
  methods : List.Forall₂ (fun m answer => m.Fills answer.2) c.methods a.methods
  /-- There is a flag word for every inner class. -/
  innerClasses : a.innerClasses.length = c.innerClasses.length

/-- The first halves of a list of pairs. -/
theorem map_zip_of_length {α β γ : Type} (f : α → γ) {as : List α} {bs : List β}
    (h : bs.length = as.length) : (as.zip bs).map (fun p => f p.1) = as.map f := by
  have hfst : (as.zip bs).map Prod.fst = as := List.map_fst_zip (Nat.le_of_eq h.symm)
  exact List.map_map.symm.trans (congrArg (List.map f) hfst)

/-- The answers about methods are written into the regions of these. -/
theorem perm_methodPatches {ms : List Method} {answers : List (Flags × Option (List UInt8))}
    (h : List.Forall₂ (fun m answer => Method.Fills m answer.2) ms answers) :
    (((ms.zip answers).flatMap fun p => p.1.patches p.2).map Patch.span).Perm
      (ms.flatMap Method.regions) := by
  induction h with
  | nil => exact .nil
  | cons head _ ih =>
    rw [List.zip_cons_cons, List.flatMap_cons, List.map_append, List.flatMap_cons]
    exact (Method.perm_patches head).append ih

/-- **The answers are written into the regions of the class.** -/
theorem perm_patches {c : ClassFile} {a : Answers} (h : c.Fills a) :
    ((c.patches a).map Patch.span).Perm c.regions := by
  rw [patches, regions, List.map_cons, List.map_append, List.map_append, List.map_map, List.map_map]
  refine .cons _ (.append ?_ (.append (perm_methodPatches h.methods) ?_))
  · exact .of_eq (map_zip_of_length (fun f : Field => Span.word f.flagsOffset) h.fields)
  · exact .of_eq (map_zip_of_length (fun i : InnerClass => Span.word i.flagsOffset) h.innerClasses)

section Rewritten

variable {file : List UInt8} {c : ClassFile} {a : Answers}

/-- The places of the answers lie apart. -/
theorem pairwise_patches (h : read file = .ok c) (ha : c.Fills a) :
    ((c.patches a).map Patch.span).Pairwise Span.Apart :=
  ((perm_patches ha).pairwise_iff Span.Apart.symm).2 ((ascending_regions h).pairwise.imp .inl)

/-- The places of the answers are in the file. -/
theorem patches_le (h : read file = .ok c) (ha : c.Fills a) {p : Patch} (hp : p ∈ c.patches a) :
    p.start + p.bytes.length ≤ file.length :=
  ((ascending_regions h).bounds ((perm_patches ha).mem_iff.1 (List.mem_map_of_mem hp))).2

/-- **The answers are in their places in the end.** -/
theorem of_rewritten (h : read file = .ok c) (ha : c.Fills a) {p : Patch} (hp : p ∈ c.patches a) :
    p.span.of (c.rewritten a) = p.bytes := by
  rw [rewritten_eq, bytes_of_read h]
  exact Patch.of_patched hp (pairwise_patches h ha) (patches_le h ha hp)

/-- **Only answers change a file**: a byte that changed belongs to an answer that has another byte
there. -/
theorem exists_patch_of_ne (h : read file = .ok c) (ha : c.Fills a) {i : Nat}
    (hne : (c.rewritten a)[i]? ≠ file[i]?) :
    ∃ p ∈ c.patches a, ∃ j, i = p.start + j ∧ j < p.bytes.length ∧ p.bytes[j]? ≠ file[i]? := by
  by_cases hi : ∃ p ∈ c.patches a, p.span.Covers i
  · obtain ⟨p, hp, hlo, hhi⟩ := hi
    have hlo' : p.start ≤ i := hlo
    have hhi' : i < p.start + p.bytes.length := hhi
    have hj : i - p.start < p.span.length := by
      show i - p.start < p.bytes.length
      omega
    refine ⟨p, hp, i - p.start, by omega, by omega, ?_⟩
    have hbyte : (p.span.of (c.rewritten a))[i - p.start]? =
        (c.rewritten a)[p.span.start + (i - p.start)]? := Span.getElem?_of hj
    rw [of_rewritten h ha hp] at hbyte
    have hi : p.span.start + (i - p.start) = i := by
      show p.start + (i - p.start) = i
      omega
    rwa [hbyte, hi]
  · refine absurd ?_ hne
    rw [rewritten_eq, bytes_of_read h]
    exact getElem?_patched fun p hp hcovers => hi ⟨p, hp, hcovers⟩

/-- Answers that say what is there change nothing. -/
theorem rewritten_eq_of_forall (h : read file = .ok c) (ha : c.Fills a)
    (hsame : ∀ p ∈ c.patches a, p.bytes = p.span.of file) : c.rewritten a = file := by
  apply List.ext_getElem?
  intro i
  by_contra hne
  obtain ⟨p, hp, j, rfl, hj, hbyte⟩ := exists_patch_of_ne h ha hne
  refine hbyte ?_
  rw [hsame p hp]
  exact Span.getElem?_of hj

end Rewritten

end ClassFile

/-! ## Asking -/

section Asking

variable {m : Type → Type} [Monad m] {α β γ : Type}

/-- Whatever a computation gives has the property `p`. -/
def Always (p : α → Prop) (x : m α) : Prop :=
  ∃ y : m {a // p a}, Subtype.val <$> y = x

/-- After a computation only what it may give matters. -/
theorem Always.bind_congr [LawfulMonad m] {p : α → Prop} {x : m α} {f g : α → m β} (h : Always p x)
    (hfg : ∀ a, p a → f a = g a) : x >>= f = x >>= g := by
  obtain ⟨y, rfl⟩ := h
  rw [bind_map_left, bind_map_left]
  congr 1
  funext a
  exact hfg a.1 a.2

/-- Running work with a state that may fail, one part after the other. -/
theorem run_bind {ε σ : Type} (x : ExceptT ε (StateM σ) α) (f : α → ExceptT ε (StateM σ) β)
    (u : σ) :
    (x >>= f).run.run u =
      match x.run.run u with
      | (.ok a, t) => (f a).run.run t
      | (.error e, t) => (.error e, t) := by
  unfold ExceptT.run StateT.run
  simp only [Bind.bind, ExceptT.bind, ExceptT.mk, StateT.bind, ExceptT.bindCont]
  cases x u with
  | mk result t => cases result <;> rfl

/-- Answers that are put into a byte string one by one may be collected first. -/
theorem foldlM_put [LawfulMonad m] {f : α → m β} {put : γ → α → β → γ} (as : List α) (out : γ) :
    as.foldlM (fun out a => do return put out a (← f a)) out = do
      let bs ← as.mapM f
      return (as.zip bs).foldl (fun out p => put out p.1 p.2) out := by
  induction as generalizing out with
  | nil => simp
  | cons a as ih =>
    rw [List.foldlM_cons, List.mapM_cons]
    simp only [bind_assoc, pure_bind]
    congr 1
    funext b
    rw [ih]
    simp only [List.zip_cons_cons, List.foldl_cons]

/-- A visitor gives for each method of a class code that fills the place of the old one. -/
def Visitor.KeepsLength (v : Visitor m) (c : ClassFile) : Prop :=
  ∀ f ∈ c.methods, Always (fun answer => f.Fills answer.2) (v.visitMethod c f (c.code? f))

namespace ClassFile

/-- The answers of a visitor, who is asked about each element in the order of the file. -/
def ask (c : ClassFile) (v : Visitor m) : m Answers := do
  let flags ← v.visitClass c
  let fields ← c.fields.mapM (v.visitField c)
  let methods ← c.methods.mapM fun f => v.visitMethod c f (c.code? f)
  let innerClasses ← c.innerClasses.mapM (v.visitInnerClass c)
  return ⟨flags, fields, methods, innerClasses⟩

/-- The answers about methods may be collected first, too: each method is handed over with its old
code, since the answers about the ones before it are written elsewhere. -/
theorem foldlM_acceptMethod [LawfulMonad m] {c : ClassFile} {v : Visitor m} {fs : List Method}
    (hapart : (fs.flatMap Method.regions).Pairwise Span.Apart)
    (hv : ∀ f ∈ fs, Always (fun answer => f.Fills answer.2) (v.visitMethod c f (c.code? f)))
    {out : List UInt8} (hcode : ∀ f ∈ fs, (f.code.map fun span => span.of out) = c.code? f) :
    fs.foldlM (c.acceptMethod v) out = do
      let answers ← fs.mapM fun f => v.visitMethod c f (c.code? f)
      return (fs.zip answers).foldl (fun out p => putMethod out p.1 p.2) out := by
  induction fs generalizing out with
  | nil => simp
  | cons f fs ih =>
    have haccept : c.acceptMethod v out f = do
        let answer ← v.visitMethod c f (f.code.map fun span => span.of out)
        return putMethod out f answer := rfl
    obtain ⟨hf, hfs⟩ := List.forall_mem_cons.1 hcode
    obtain ⟨hvf, hvfs⟩ := List.forall_mem_cons.1 hv
    rw [List.flatMap_cons, List.pairwise_append] at hapart
    obtain ⟨-, hrest, hbehind⟩ := hapart
    rw [List.foldlM_cons, List.mapM_cons, haccept, hf]
    simp only [bind_assoc, pure_bind]
    refine hvf.bind_congr fun answer hfill => ?_
    have hcode' :
        ∀ g ∈ fs, (g.code.map fun span => span.of (putMethod out f answer)) = c.code? g := by
      intro g hg
      rw [← hfs g hg, putMethod_eq]
      refine Option.map_congr fun span hspan => Span.of_patched fun p hp => ?_
      refine hbehind _ ((Method.perm_patches hfill).mem_iff.1 (List.mem_map_of_mem hp)) _ ?_
      exact List.mem_flatMap_of_mem hg (List.mem_cons_of_mem _ (Option.mem_toList.2 hspan))
    rw [ih hrest hvfs hcode']
    simp only [List.zip_cons_cons, List.foldl_cons]

/-- **Accepting a visitor is asking it and writing the answers.** -/
theorem accept_eq [LawfulMonad m] {file : List UInt8} {c : ClassFile} (h : read file = .ok c)
    {v : Visitor m} (hv : v.KeepsLength c) :
    c.accept v = do return c.rewritten (← c.ask v) := by
  have hfield : c.acceptField v =
      fun out f => do return putFlags out f.flagsOffset (← v.visitField c f) := rfl
  have hinner : c.acceptInnerClass v =
      fun out i => do return putFlags out i.flagsOffset (← v.visitInnerClass c i) := rfl
  have hapart : c.regions.Pairwise Span.Apart := (ascending_regions h).pairwise.imp .inl
  rw [regions, ← List.cons_append, List.pairwise_append, List.pairwise_append] at hapart
  obtain ⟨-, ⟨hmethods, -, -⟩, hfront⟩ := hapart
  -- by the time that the methods are visited, only flag words in front of them were written
  have hcode : ∀ (flags : Flags) (ws : List Flags), ∀ f ∈ c.methods,
      (f.code.map fun span => span.of ((c.fields.zip ws).foldl
        (fun out p => putFlags out p.1.flagsOffset p.2) (putFlags c.bytes c.flagsOffset flags))) =
        c.code? f := by
    intro flags ws f hf
    have hpatched : (c.fields.zip ws).foldl (fun out p => putFlags out p.1.flagsOffset p.2)
        (putFlags c.bytes c.flagsOffset flags) =
          patched c.bytes (⟨c.flagsOffset, wordBytes flags⟩ ::
            (c.fields.zip ws).map fun p => ⟨p.1.flagsOffset, wordBytes p.2⟩) := by
      rw [patched, List.foldl_cons, List.foldl_map]
      rfl
    rw [hpatched]
    refine Option.map_congr fun span hspan => Span.of_patched fun p hp => ?_
    refine hfront _ ?_ _ (List.mem_append_left _ (List.mem_flatMap_of_mem hf
      (List.mem_cons_of_mem _ (Option.mem_toList.2 hspan))))
    rcases List.mem_cons.1 hp with rfl | hp
    · exact List.mem_cons_self
    · obtain ⟨q, hq, rfl⟩ := List.mem_map.1 hp
      exact List.mem_cons_of_mem _ (List.mem_map_of_mem (List.of_mem_zip hq).1)
  rw [accept, ask]
  simp only [bind_assoc, pure_bind, hfield, hinner, foldlM_put]
  congr 1
  funext flags
  congr 1
  funext ws
  rw [foldlM_acceptMethod hmethods hv (hcode flags ws)]
  simp only [bind_assoc, pure_bind]
  rfl

end ClassFile

end Asking

end ClassAccess
