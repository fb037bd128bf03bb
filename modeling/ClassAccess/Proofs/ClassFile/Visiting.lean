import ClassAccess.Proofs.ClassFile.Acceptance

/-!
# Visiting in order

A visitor with a state of its own, which may fail, is asked about one element after the other: the
class, its fields, its methods with the code that they have in the file, and the inner classes. If
it fails, that is the outcome and no later element is visited. Otherwise its answers are in their
places in the end and everything else is as it was. No place is ever out of range.

## Main definitions

* `InOrder` — working through a list succeeds from one state to another one.
* `Visitor.EditsInPlace` — a visitor gives code that is as long as what it was handed.
* `Visitor.visit` — what a visitor answers about an element, with the places of the answers.
* `ClassFile.Replaces` — a file is the old one but for some patches in the regions of the class.
* `ClassFile.accept?` — accepting a visitor, where a place that is out of range is a failure.

## Main results

* `run_mapM_eq_ok_iff`, `run_mapM_eq_error_iff` — how working through a list succeeds and how it
  fails.
* `ClassFile.run_accept?` — no place is out of range.
* `ClassFile.accept_eq_visits` — accepting a visitor is visiting the elements in order.
* `ClassFile.accept_in_order` — the regions of a class, and what accepting a visitor does to them.

## Design

Whether a place is in range is not seen in `ClassFile.accept`, where what lies out of range is left
alone. So the same steps are written down once more with a check at each place; the two agree
because every region of a class is in its file and no step changes the length of the file.
-/

set_option autoImplicit false

namespace ClassAccess

/-! ## Working in order -/

section InOrder

variable {ε σ α β : Type} {x : ExceptT ε (StateM σ) α} {f : α → ExceptT ε (StateM σ) β} {u t : σ}
  {e : ε}

/-- Two parts of some work succeed if the first one does, and the second one from there on. -/
theorem run_bind_eq_ok_iff {b : β} :
    (x >>= f).run.run u = (.ok b, t) ↔
      ∃ a v, x.run.run u = (.ok a, v) ∧ (f a).run.run v = (.ok b, t) := by
  rw [run_bind]
  cases hx : x.run.run u with
  | mk result v =>
    cases result with
    | error e =>
      constructor
      · intro h
        cases h
      · rintro ⟨a, w, h, -⟩
        cases h
    | ok a =>
      constructor
      · exact fun h => ⟨a, v, rfl, h⟩
      · rintro ⟨a', w, h, hf⟩
        cases h
        exact hf

/-- Two parts of some work fail if the first one does, or the second one from there on. -/
theorem run_bind_eq_error_iff :
    (x >>= f).run.run u = (.error e, t) ↔
      x.run.run u = (.error e, t) ∨
        ∃ a v, x.run.run u = (.ok a, v) ∧ (f a).run.run v = (.error e, t) := by
  rw [run_bind]
  cases hx : x.run.run u with
  | mk result v =>
    cases result with
    | error e' =>
      constructor
      · intro h
        cases h
        exact .inl rfl
      · rintro (h | ⟨a, w, h, -⟩)
        · cases h
          rfl
        · cases h
    | ok a =>
      constructor
      · exact fun h => .inr ⟨a, v, rfl, h⟩
      · rintro (h | ⟨a', w, h, hf⟩)
        · cases h
        · cases h
          exact hf

/-- Working through a list from the state `u` on succeeds for one member after the other, gives the
results `bs` and ends in the state `t`. -/
inductive InOrder (f : α → ExceptT ε (StateM σ) β) : (u : σ) → List α → List β → (t : σ) → Prop
  /-- Nothing is left to do. -/
  | nil (u : σ) : InOrder f u [] [] u
  /-- The others follow in the state that the first one left behind. -/
  | cons {u v t : σ} {a : α} {b : β} {as : List α} {bs : List β}
      (head : (f a).run.run u = (.ok b, v)) (tail : InOrder f v as bs t) :
      InOrder f u (a :: as) (b :: bs) t

/-- **Working through a list succeeds** if it does for each member in order. -/
theorem run_mapM_eq_ok_iff {as : List α} {bs : List β} :
    (as.mapM f).run.run u = (.ok bs, t) ↔ InOrder f u as bs t := by
  induction as generalizing u bs with
  | nil =>
    rw [List.mapM_nil]
    constructor
    · intro h
      cases h
      exact .nil _
    · intro h
      cases h
      rfl
  | cons a as ih =>
    rw [List.mapM_cons]
    simp only [run_bind_eq_ok_iff]
    constructor
    · rintro ⟨b, v, hb, bs', w, hbs, h⟩
      cases h
      exact .cons hb (ih.1 hbs)
    · intro h
      cases h with
      | cons head tail => exact ⟨_, _, head, _, _, ih.2 tail, rfl⟩

/-- **Working through a list fails** with the first member that it fails for, in the state that this
one leaves behind: the members after it are not worked on. -/
theorem run_mapM_eq_error_iff {as : List α} :
    (as.mapM f).run.run u = (.error e, t) ↔
      ∃ before a after bs v, as = before ++ a :: after ∧ InOrder f u before bs v ∧
        (f a).run.run v = (.error e, t) := by
  induction as generalizing u with
  | nil =>
    constructor
    · intro h
      cases h
    · rintro ⟨before, a, after, bs, v, h, -⟩
      cases before <;> cases h
  | cons a as ih =>
    rw [List.mapM_cons, run_bind_eq_error_iff]
    have hrest : ∀ b v, (do let bs ← as.mapM f; return b :: bs).run.run v = (.error e, t) ↔
        (as.mapM f).run.run v = (.error e, t) := by
      intro b v
      rw [run_bind_eq_error_iff]
      constructor
      · rintro (h | ⟨bs, w, -, h⟩)
        · exact h
        · cases h
      · exact .inl
    simp only [hrest, ih]
    constructor
    · rintro (h | ⟨b, v, hb, before, a', after, bs, w, rfl, hbefore, ha'⟩)
      · exact ⟨[], a, as, [], u, rfl, .nil u, h⟩
      · exact ⟨a :: before, a', after, b :: bs, w, rfl, .cons hb hbefore, ha'⟩
    · rintro ⟨_ | ⟨c, before⟩, a', after, bs, w, h, hbefore, ha'⟩
      · cases h
        cases hbefore
        exact .inl ha'
      · cases h
        cases hbefore with
        | cons head tail => exact .inr ⟨_, _, head, before, a', after, _, w, rfl, tail, ha'⟩

/-- What holds of every result of some work always holds. -/
theorem always_of_run {p : α → Prop} (h : ∀ u a t, x.run.run u = (.ok a, t) → p a) :
    Always p x := by
  have hrun : ∀ u, ∃ r : Except ε {a // p a} × σ, (r.1.map Subtype.val, r.2) = x.run.run u := by
    intro u
    cases hx : x.run.run u with
    | mk result t =>
      cases result with
      | error e => exact ⟨(.error e, t), rfl⟩
      | ok a => exact ⟨(.ok ⟨a, h u a t hx⟩, t), rfl⟩
  have hmap : ∀ (y : ExceptT ε (StateM σ) {a // p a}) (u : σ), (Subtype.val <$> y).run.run u =
      ((y.run.run u).1.map Subtype.val, (y.run.run u).2) := by
    intro y u
    rw [map_eq_pure_bind, run_bind]
    cases y.run.run u with
    | mk result t => cases result <;> rfl
  choose y hy using hrun
  exact ⟨y, funext fun u => (hmap y u).trans (hy u)⟩

end InOrder

/-! ## Checked places -/

section Checked

variable {m : Type → Type} [Monad m] {α β γ : Type}

/-- Work that gives what is there, and fails if nothing is. -/
def orFail (x? : Option α) : OptionT m α := OptionT.mk (pure x?)

/-- The byte string with bytes written at `start`, or nothing if that place is not in it. -/
def overwrite? (out : List UInt8) (start : Nat) (bytes : List UInt8) : Option (List UInt8) :=
  if start + bytes.length ≤ out.length then some (overwrite out start bytes) else none

/-- The bytes of a stretch, or nothing if it is not in the byte string. -/
def Span.of? (span : Span) (out : List UInt8) : Option (List UInt8) :=
  if span.start + span.length ≤ out.length then some (span.of out) else none

namespace ClassFile

/-- The file with the flag word that `visit` gives written at an offset. -/
def acceptFlags? (visit : m Flags) (offset : Nat) (out : List UInt8) : OptionT m (List UInt8) := do
  let flags ← OptionT.lift visit
  orFail (overwrite? out offset (wordBytes flags))

/-- The code of a method as it is by then, if it has any; nothing if its place is out of range. -/
def codeIn? (out : List UInt8) : Option Span → Option (Option (List UInt8))
  | none => some none
  | some span => (span.of? out).map some

/-- The file with the code of a method rewritten, or nothing if its place is out of range. -/
def putCode? (out : List UInt8) : Option Span → Option (List UInt8) → Option (List UInt8)
  | some span, some code => overwrite? out span.start code
  | _, _ => some out

/-- The file after a visit to one method. -/
def acceptMethod? (c : ClassFile) (v : Visitor m) (out : List UInt8) (f : Method) :
    OptionT m (List UInt8) := do
  let code ← orFail (codeIn? out f.code)
  let (flags, code) ← OptionT.lift (v.visitMethod c f code)
  let out ← orFail (putCode? out f.code code)
  orFail (overwrite? out f.flagsOffset (wordBytes flags))

/-- The file after visits to all elements, or nothing if a place was out of range. -/
def accept? (c : ClassFile) (v : Visitor m) : OptionT m (List UInt8) := do
  let out ← acceptFlags? (v.visitClass c) c.flagsOffset c.bytes
  let out ← c.fields.foldlM (fun out f => acceptFlags? (v.visitField c f) f.flagsOffset out) out
  let out ← c.methods.foldlM (c.acceptMethod? v) out
  c.innerClasses.foldlM (fun out i => acceptFlags? (v.visitInnerClass c i) i.flagsOffset out) out

end ClassFile

/-! ### No place is out of range -/

/-- Whatever some work gives is something. -/
theorem Always.trivial [LawfulMonad m] (x : m α) : Always (fun _ => True) x :=
  ⟨(fun a => ⟨a, True.intro⟩) <$> x, by simp⟩

/-- What is given without work. -/
theorem Always.pure [LawfulMonad m] {p : α → Prop} {a : α} (h : p a) :
    Always p (Pure.pure a : m α) :=
  ⟨Pure.pure ⟨a, h⟩, map_pure ..⟩

/-- What is given in the end after two parts of some work. -/
theorem Always.bind [LawfulMonad m] {p : α → Prop} {q : β → Prop} {x : m α} {f : α → m β}
    (hx : Always p x) (hf : ∀ a, p a → Always q (f a)) : Always q (x >>= f) := by
  obtain ⟨y, rfl⟩ := hx
  choose z hz using fun a : {a // p a} => hf a.1 a.2
  refine ⟨y >>= z, ?_⟩
  rw [map_bind, bind_map_left]
  congr 1
  funext a
  exact hz a

/-- The checked work never fails, and does what the unchecked one does. -/
def Safe (x? : OptionT m α) (x : m α) : Prop := x?.run = some <$> x

/-- What is there is no failure. -/
theorem Safe.orFail [LawfulMonad m] {x? : Option α} {a : α} (h : x? = some a) :
    Safe (orFail x? : OptionT m α) (pure a) := by
  rw [Safe, h, map_pure]
  rfl

/-- Work without places never fails. -/
theorem Safe.lift [LawfulMonad m] (x : m α) : Safe (OptionT.lift x) x := by
  rw [Safe, OptionT.run_lift, map_eq_pure_bind]

/-- Two parts of some work never fail if the first one does not, and the second one does not on what
the first one may give. -/
theorem Safe.bind [LawfulMonad m] {p : α → Prop} {x? : OptionT m α} {x : m α}
    {f? : α → OptionT m β} {f : α → m β} (hx : Safe x? x) (hp : Always p x)
    (hf : ∀ a, p a → Safe (f? a) (f a)) : Safe (x? >>= f?) (x >>= f) := by
  have hrun : (x? >>= f?).run = x >>= fun a => (f? a).run := by
    rw [OptionT.run_bind, hx, Option.elimM, bind_map_left]
    rfl
  rw [Safe, hrun, map_bind]
  exact hp.bind_congr hf

/-- Work on the members of a list, one after the other, never fails if `p` holds at first, keeps
holding, and no member makes it fail. -/
theorem Safe.foldlM [LawfulMonad m] {p : γ → Prop} {step? : γ → α → OptionT m γ}
    {step : γ → α → m γ} {as : List α}
    (h : ∀ a ∈ as, ∀ out, p out → Safe (step? out a) (step out a) ∧ Always p (step out a)) {out : γ}
    (hout : p out) :
    Safe (as.foldlM step? out) (as.foldlM step out) ∧ Always p (as.foldlM step out) := by
  induction as generalizing out with
  | nil => exact ⟨(map_pure ..).symm, .pure hout⟩
  | cons a as ih =>
    obtain ⟨ha, has⟩ := List.forall_mem_cons.1 h
    obtain ⟨hsafe, halways⟩ := ha out hout
    rw [List.foldlM_cons, List.foldlM_cons]
    exact ⟨hsafe.bind halways fun out' hout' => (ih has hout').1,
      halways.bind fun out' hout' => (ih has hout').2⟩

namespace ClassFile

variable [LawfulMonad m]

/-- A flag word whose place is in the file. -/
theorem safe_acceptFlags? {n offset : Nat} (hplace : offset + 2 ≤ n) (visit : m Flags)
    {out : List UInt8} (hout : out.length = n) :
    Safe (acceptFlags? visit offset out) (do return putFlags out offset (← visit)) ∧
      Always (fun out' => out'.length = n) (do return putFlags out offset (← visit)) := by
  constructor
  · refine (Safe.lift visit).bind (.trivial visit) fun flags _ => .orFail (if_pos ?_)
    rw [length_wordBytes]
    omega
  · refine (Always.trivial visit).bind fun flags _ => .pure ?_
    rw [putFlags, length_overwrite, hout]

section Code

variable {out : List UInt8} {span? : Option Span} {code : Option (List UInt8)}

/-- Rewritten code leaves the length of the file. -/
theorem length_putCode : (putCode out span? code).length = out.length := by
  cases span? <;> cases code <;> simp [putCode]

/-- Code whose place is in the file is found there. -/
theorem codeIn?_eq_some (hplace : ∀ span ∈ span?, span.start + span.length ≤ out.length) :
    codeIn? out span? = some (span?.map fun span => span.of out) := by
  cases span? with
  | none => rfl
  | some span =>
    rw [codeIn?, Span.of?, if_pos (hplace span rfl)]
    rfl

/-- Code that is as long as what was found fits its place. -/
theorem putCode?_eq_some (hplace : ∀ span ∈ span?, span.start + span.length ≤ out.length)
    (hlength : code.map List.length = (span?.map fun span => span.of out).map List.length) :
    putCode? out span? code = some (putCode out span? code) := by
  cases span? with
  | none => cases code <;> rfl
  | some span =>
    cases code with
    | none => rfl
    | some code =>
      have hlen : code.length = (span.of out).length := Option.some.inj hlength
      have hroom := hplace span rfl
      refine if_pos ?_
      rw [hlen, Span.of, List.length_take, List.length_drop]
      omega

end Code

/-- A method of which the places are in the file, visited by someone who keeps the length of
code. -/
theorem safe_acceptMethod? {c : ClassFile} {v : Visitor m} {n : Nat} {f : Method}
    (hplaces : ∀ s ∈ f.regions, s.start + s.length ≤ n)
    (hv : ∀ code, Always (fun answer => answer.2.map List.length = code.map List.length)
      (v.visitMethod c f code)) {out : List UInt8} (hout : out.length = n) :
    Safe (c.acceptMethod? v out f) (c.acceptMethod v out f) ∧
      Always (fun out' => out'.length = n) (c.acceptMethod v out f) := by
  have hword : f.flagsOffset + 2 ≤ n := hplaces _ List.mem_cons_self
  have hspan : ∀ span ∈ f.code, span.start + span.length ≤ out.length :=
    fun span hspan => hout ▸ hplaces _ (List.mem_cons_of_mem _ (Option.mem_toList.2 hspan))
  have hlength : ∀ code, (putCode out f.code code).length = n :=
    fun code => length_putCode.trans hout
  constructor
  · have haccept : c.acceptMethod v out f = (do
        let code ← (pure (f.code.map fun span => span.of out) : m _)
        let answer ← v.visitMethod c f code
        let out' ← (pure (putCode out f.code answer.2) : m _)
        pure (putFlags out' f.flagsOffset answer.1)) := by
      simp only [pure_bind]
      rfl
    rw [haccept]
    refine (Safe.orFail (codeIn?_eq_some hspan)).bind
      (p := (· = f.code.map fun span => span.of out)) (.pure rfl) ?_
    rintro _ rfl
    refine (Safe.lift _).bind (hv _) fun answer hanswer => ?_
    refine (Safe.orFail (putCode?_eq_some hspan hanswer)).bind
      (p := fun out' : List UInt8 => out'.length = n) (.pure (hlength _)) ?_
    intro out' hout'
    refine .orFail (if_pos ?_)
    rw [length_wordBytes]
    omega
  · refine (Always.trivial _).bind fun answer _ => .pure ?_
    show (putFlags _ _ _).length = n
    rw [putFlags, length_overwrite, hlength]

/-- **No place is out of range** when a visitor who keeps the length of code is accepted.

**Proof sketch.** Every region of the class is in the file, and each step keeps the length of the
file; so the check at each place succeeds, whatever the visitor answers. -/
theorem run_accept? {file : List UInt8} {c : ClassFile} (h : read file = .ok c) {v : Visitor m}
    (hv : ∀ f code, Always (fun answer => answer.2.map List.length = code.map List.length)
      (v.visitMethod c f code)) : (c.accept? v).run = some <$> c.accept v := by
  have hplace : ∀ s ∈ c.regions, s.start + s.length ≤ file.length :=
    fun s hs => ((ascending_regions h).bounds hs).2
  simp only [regions, List.forall_mem_cons, List.forall_mem_append, List.forall_mem_map,
    List.forall_mem_flatMap] at hplace
  obtain ⟨hclass, hfields, hmethods, hinner⟩ := hplace
  have hfile : c.bytes.length = file.length := by rw [bytes_of_read h]
  have haccept : c.accept v = (do
      let out ← (do return putFlags c.bytes c.flagsOffset (← v.visitClass c))
      let out ← c.fields.foldlM (c.acceptField v) out
      let out ← c.methods.foldlM (c.acceptMethod v) out
      c.innerClasses.foldlM (c.acceptInnerClass v) out) := by
    simp only [bind_assoc, pure_bind]
    rfl
  rw [haccept]
  obtain ⟨hsafe, halways⟩ := safe_acceptFlags? hclass (v.visitClass c) hfile
  refine hsafe.bind halways fun out hout => ?_
  obtain ⟨hsafe, halways⟩ := Safe.foldlM (p := fun out : List UInt8 => out.length = file.length)
    (fun f hf out hout => safe_acceptFlags? (hfields f hf) (v.visitField c f) hout) hout
  refine hsafe.bind halways fun out hout => ?_
  obtain ⟨hsafe, halways⟩ := Safe.foldlM (p := fun out : List UInt8 => out.length = file.length)
    (fun f hf out hout => safe_acceptMethod? (hmethods f hf) (hv f) hout) hout
  refine hsafe.bind halways fun out hout => ?_
  exact (Safe.foldlM (p := fun out : List UInt8 => out.length = file.length)
    (fun i hi out hout => safe_acceptFlags? (hinner i hi) (v.visitInnerClass c i) hout) hout).1

end ClassFile

end Checked

/-! ## Visits -/

section Visits

variable {m : Type → Type} [Monad m] {α β γ : Type}

/-- What a visitor answers about an element of the class `c`, with the places that the answers are
for. A method is handed over with the code that it has in the file. -/
def Visitor.visit (v : Visitor m) (c : ClassFile) : Part → m (List Patch)
  | .whole d => do return [⟨d.flagsOffset, wordBytes (← v.visitClass d)⟩]
  | .field f => do return [⟨f.flagsOffset, wordBytes (← v.visitField c f)⟩]
  | .method f => do return f.patches (← v.visitMethod c f (c.code? f))
  | .innerClass i => do return [⟨i.flagsOffset, wordBytes (← v.visitInnerClass c i)⟩]

/-- Answers may be collected before something is made of each of them. -/
theorem mapM_map_zip [LawfulMonad m] {f : α → m β} {g : α → β → γ} (as : List α) :
    as.mapM (fun a => do return g a (← f a)) = do
      let bs ← as.mapM f
      return (as.zip bs).map fun p => g p.1 p.2 := by
  induction as with
  | nil => simp
  | cons a as ih =>
    rw [List.mapM_cons, List.mapM_cons]
    simp only [bind_assoc, pure_bind, ih, List.zip_cons_cons, List.map_cons]

/-- **Accepting a visitor is visiting the elements in order** and writing the answers into their
places. -/
theorem ClassFile.accept_eq_visits [LawfulMonad m] {file : List UInt8} {c : ClassFile}
    (h : read file = .ok c) {v : Visitor m} (hv : v.KeepsLength c) :
    c.accept v = do return patched file (← c.parts.mapM (v.visit c)).flatten := by
  have hfields : (c.fields.map Part.field).mapM (v.visit c) = do
      let ws ← c.fields.mapM (v.visitField c)
      return (c.fields.zip ws).map fun p => [⟨p.1.flagsOffset, wordBytes p.2⟩] := by
    rw [List.mapM_map]
    exact mapM_map_zip c.fields
  have hmethods : (c.methods.map Part.method).mapM (v.visit c) = do
      let answers ← c.methods.mapM fun f => v.visitMethod c f (c.code? f)
      return (c.methods.zip answers).map fun p => p.1.patches p.2 := by
    rw [List.mapM_map]
    exact mapM_map_zip c.methods
  have hinner : (c.innerClasses.map Part.innerClass).mapM (v.visit c) = do
      let ws ← c.innerClasses.mapM (v.visitInnerClass c)
      return (c.innerClasses.zip ws).map fun p => [⟨p.1.flagsOffset, wordBytes p.2⟩] := by
    rw [List.mapM_map]
    exact mapM_map_zip c.innerClasses
  have hwhole : v.visit c (.whole c) = do
      let flags ← v.visitClass c
      return [⟨c.flagsOffset, wordBytes flags⟩] := rfl
  -- one row of patches for each element, put in a row
  have hrows : ∀ a : Answers, c.patches a = ([⟨c.flagsOffset, wordBytes a.flags⟩] ::
      ((c.fields.zip a.fields).map (fun p => [(⟨p.1.flagsOffset, wordBytes p.2⟩ : Patch)]) ++
        ((c.methods.zip a.methods).map (fun p => p.1.patches p.2) ++
          (c.innerClasses.zip a.innerClasses).map
            fun p => [(⟨p.1.flagsOffset, wordBytes p.2⟩ : Patch)]))).flatten := by
    intro a
    simp only [patches, List.flatten_cons, List.flatten_append, List.singleton_append,
      ← List.flatMap_def, ← List.map_eq_flatMap]
  rw [accept_eq h hv, ask, parts]
  simp only [List.mapM_cons, List.mapM_append, hwhole, hfields, hmethods, hinner, bind_assoc,
    pure_bind, rewritten_eq, hrows, bytes_of_read h]

end Visits

/-! ## What accepting does to the regions -/

/-- The flag word of an element and, for a method, its code. -/
def Part.regions : Part → List Span
  | method m => m.regions
  | p => [.word p.offset]

/-- The regions of a class are those of its elements. -/
theorem ClassFile.regions_eq_flatMap (c : ClassFile) :
    c.regions = c.parts.flatMap Part.regions := by
  simp only [regions, parts, List.flatMap_cons, List.flatMap_append, List.flatMap_map, Part.regions,
    Part.offset, List.singleton_append, ← List.map_eq_flatMap]

/-- The visitor gives code that is as long as what it was handed. -/
def Visitor.EditsInPlace {ε σ : Type} (v : Visitor (ExceptT ε (StateM σ))) : Prop :=
  ∀ c f code u answer t, (v.visitMethod c f code).run.run u = (.ok answer, t) →
    answer.2.map List.length = code.map List.length

/-- The file `out` is `file` with new bytes in the regions of the class `c`: each region has its
patch, and every byte outside them is the old one. -/
structure ClassFile.Replaces (c : ClassFile) (file : List UInt8) (patches : List Patch)
    (out : List UInt8) : Prop where
  /-- The patches are for the regions. -/
  spans : (patches.map Patch.span).Perm c.regions
  /-- The length stays. -/
  length : out.length = file.length
  /-- Each patch is in its place. -/
  inPlace : ∀ p ∈ patches, p.span.of out = p.bytes
  /-- Elsewhere nothing changes. -/
  elsewhere : ∀ i, (∀ r ∈ c.regions, ¬r.Covers i) → out[i]? = file[i]?

namespace ClassFile

variable {file : List UInt8} {c : ClassFile}

/-- **Patches for the regions of a class determine the new file**: it is the patched one. -/
theorem replaces_iff (h : read file = .ok c) {patches : List Patch}
    (hspans : (patches.map Patch.span).Perm c.regions) {out : List UInt8} :
    c.Replaces file patches out ↔ out = patched file patches := by
  have hascending := ascending_regions h
  have hapart : (patches.map Patch.span).Pairwise Span.Apart :=
    (hspans.pairwise_iff Span.Apart.symm).2 (hascending.pairwise.imp .inl)
  have hmem : ∀ p ∈ patches, p.span ∈ c.regions :=
    fun p hp => hspans.mem_iff.1 (List.mem_map_of_mem hp)
  have hpatched : c.Replaces file patches (patched file patches) := by
    refine ⟨hspans, length_patched .., fun p hp => ?_, fun i hi => ?_⟩
    · exact Patch.of_patched hp hapart (hascending.bounds (hmem p hp)).2
    · exact getElem?_patched fun p hp => hi _ (hmem p hp)
  constructor
  · intro hout
    -- a byte is in the patch of a region, or outside all of them
    apply List.ext_getElem?
    intro i
    by_cases hi : ∃ p ∈ patches, p.span.Covers i
    · obtain ⟨p, hp, hlo, hhi⟩ := hi
      have hj : i - p.span.start < p.span.length := by omega
      have hplace : p.span.start + (i - p.span.start) = i := by omega
      have hbyte : ∀ x, p.span.of x = p.bytes → x[i]? = p.bytes[i - p.span.start]? := by
        intro x hx
        rw [← hx, Span.getElem?_of hj, hplace]
      rw [hbyte out (hout.inPlace p hp), hbyte _ (hpatched.inPlace p hp)]
    · have hoff : ∀ r ∈ c.regions, ¬r.Covers i := by
        intro r hr hcovers
        obtain ⟨p, hp, rfl⟩ := List.mem_map.1 (hspans.mem_iff.2 hr)
        exact hi ⟨p, hp, hcovers⟩
      rw [hout.elsewhere i hoff, hpatched.elsewhere i hoff]
  · rintro rfl
    exact hpatched

/-- Code that is as long as the old code of a method fills its place. -/
theorem fills_of_length (h : read file = .ok c) {m : Method} (hm : m ∈ c.methods)
    {code : Option (List UInt8)} (hlen : code.map List.length = (c.code? m).map List.length) :
    m.Fills code := by
  rw [Method.Fills, hlen]
  cases hspan : m.code with
  | none =>
    rw [code?_of_none hspan]
    rfl
  | some span =>
    obtain ⟨hcode, hfull, -⟩ := code_of_method h hm hspan
    rw [hcode, Option.map_some, Option.map_some, hfull]

section InOrder

variable {ε σ : Type} {v : Visitor (ExceptT ε (StateM σ))} {u t : σ}

/-- What a visitor answers about an element is for the regions of the element. -/
theorem perm_of_visit (h : read file = .ok c) (hv : v.EditsInPlace) {p : Part} (hp : p ∈ c.parts)
    {row : List Patch} (hrow : (v.visit c p).run.run u = (.ok row, t)) :
    (row.map Patch.span).Perm p.regions := by
  have hword : ∀ {x : ExceptT ε (StateM σ) Flags} {o : Nat},
      (do return [⟨o, wordBytes (← x)⟩] : ExceptT ε (StateM σ) (List Patch)).run.run u =
        (.ok row, t) → row.map Patch.span = [.word o] := by
    intro x o hx
    obtain ⟨flags, w, -, hpure⟩ := run_bind_eq_ok_iff.1 hx
    cases hpure
    rfl
  simp only [parts, List.mem_cons, List.mem_append, List.mem_map] at hp
  rcases hp with rfl | ⟨f, hf, rfl⟩ | ⟨m, hm, rfl⟩ | ⟨i, hi, rfl⟩
  · exact .of_eq (hword hrow)
  · exact .of_eq (hword hrow)
  · obtain ⟨answer, w, hanswer, hpure⟩ := run_bind_eq_ok_iff.1 hrow
    cases hpure
    exact Method.perm_patches (fills_of_length h hm (hv c m _ u answer _ hanswer))
  · exact .of_eq (hword hrow)

/-- What a visitor answers about some elements is for the regions of these. -/
theorem perm_flatMap_regions (h : read file = .ok c) (hv : v.EditsInPlace) {ps : List Part}
    (hps : ∀ p ∈ ps, p ∈ c.parts) {rows : List (List Patch)}
    (hrows : InOrder (v.visit c) u ps rows t) :
    (rows.flatten.map Patch.span).Perm (ps.flatMap Part.regions) := by
  induction hrows with
  | nil => exact .nil
  | cons head _ ih =>
    obtain ⟨hp, hrest⟩ := List.forall_mem_cons.1 hps
    rw [List.flatten_cons, List.map_append, List.flatMap_cons]
    exact (perm_of_visit h hv hp head).append (ih hrest)

/-- What a visitor answers about the elements is for the regions of the class. -/
theorem perm_of_inOrder (h : read file = .ok c) (hv : v.EditsInPlace) {rows : List (List Patch)}
    (hrows : InOrder (v.visit c) u c.parts rows t) :
    (rows.flatten.map Patch.span).Perm c.regions := by
  rw [regions_eq_flatMap]
  exact perm_flatMap_regions h hv (fun _ hp => hp) hrows

/-- **The regions of a class file ascend, and accepting a visitor replaces them one after the
other.** They are in the file and do not overlap, and the recorded flag words are what the file has
there. Let a visitor keep the length of code. Then no place is out of range. Where the visitor
succeeds for each element in the order of the file, methods being handed over with their old code,
the new file has the answers in the regions of the class and is the old one elsewhere. Where it
fails for an element, after having succeeded for all elements in front of it, that is the outcome,
in the state that this visit left behind.

**Proof sketch.** By the time that a method is visited only flag words and code in front of its code
were written, so that it is handed over with its old code; hence accepting is visiting the elements
in order and patching the file with all answers. Each answer is as long as its region, and the
regions lie apart. -/
theorem accept_in_order (h : read file = .ok c) (hv : v.EditsInPlace) :
    ((∀ r ∈ c.regions, r.start + r.length ≤ file.length) ∧ c.regions.Pairwise Span.Precedes ∧
      ∀ p ∈ c.parts, (Span.word p.offset).of file = wordBytes p.flags) ∧
    (c.accept? v).run = some <$> c.accept v ∧
    (∀ u out t, (c.accept v).run.run u = (.ok out, t) ↔
      ∃ rows, InOrder (v.visit c) u c.parts rows t ∧ c.Replaces file rows.flatten out) ∧
    ∀ u e t, (c.accept v).run.run u = (.error e, t) ↔
      ∃ before p after rows w, c.parts = before ++ p :: after ∧
        InOrder (v.visit c) u before rows w ∧ (v.visit c p).run.run w = (.error e, t) := by
  have halways : ∀ f code, Always (fun answer => answer.2.map List.length = code.map List.length)
      (v.visitMethod c f code) :=
    fun f code => always_of_run fun u answer t => hv c f code u answer t
  have hkeeps : v.KeepsLength c := fun f hf => always_of_run fun u answer t hanswer =>
    fills_of_length h hf (hv c f _ u answer t hanswer)
  refine ⟨⟨fun r hr => ((ascending_regions h).bounds hr).2, (ascending_rooms h).precedes_of_room,
    fun p hp => word_of_part h hp⟩, run_accept? h halways, fun u out t => ?_, fun u e t => ?_⟩
  · rw [accept_eq_visits h hkeeps, run_bind_eq_ok_iff]
    simp only [run_mapM_eq_ok_iff]
    constructor
    · rintro ⟨rows, w, hrows, hpure⟩
      cases hpure
      exact ⟨rows, hrows, (replaces_iff h (perm_of_inOrder h hv hrows)).2 rfl⟩
    · rintro ⟨rows, hrows, hout⟩
      rw [replaces_iff h (perm_of_inOrder h hv hrows)] at hout
      subst hout
      exact ⟨rows, t, hrows, rfl⟩
  · rw [accept_eq_visits h hkeeps, run_bind_eq_error_iff]
    simp only [run_mapM_eq_error_iff]
    constructor
    · rintro (hfails | ⟨rows, w, -, hpure⟩)
      · exact hfails
      · cases hpure
    · exact .inl

end InOrder

end ClassFile

namespace Sample

/-- A visitor that notes whom it visits, makes everything final and turns code around. It refuses
inner classes without flags. -/
def visitor : Visitor (ExceptT String (StateM (List String))) where
  visitClass c := do
    modify (· ++ [c.name])
    return c.flags ||| Flags.finalBit
  visitField _ f := do
    modify (· ++ [f.name])
    return f.flags ||| Flags.finalBit
  visitMethod _ f code := do
    modify (· ++ [f.signature])
    return (f.flags ||| Flags.finalBit, code.map List.reverse)
  visitInnerClass _ i := do
    modify (· ++ [i.name])
    if i.flags = 0 then throw i.name
    return i.flags ||| Flags.finalBit

/-- The visitor keeps the length of code. -/
theorem editsInPlace_visitor : visitor.EditsInPlace := by
  intro c f code u answer t h
  obtain ⟨-, v, -, hpure⟩ := run_bind_eq_ok_iff.1 h
  cases hpure
  cases code <;> simp

end Sample

/-- The small class and a visitor of it. -/
theorem ClassFile.accept_in_order_sample :
    read Sample.file = .ok Sample.parsed ∧ Sample.visitor.EditsInPlace ∧
    ((∀ r ∈ Sample.parsed.regions, r.start + r.length ≤ Sample.file.length) ∧
      Sample.parsed.regions.Pairwise Span.Precedes ∧
      ∀ p ∈ Sample.parsed.parts, (Span.word p.offset).of Sample.file = wordBytes p.flags) ∧
    (Sample.parsed.accept? Sample.visitor).run = some <$> Sample.parsed.accept Sample.visitor ∧
    (∀ u out t, (Sample.parsed.accept Sample.visitor).run.run u = (.ok out, t) ↔
      ∃ rows, InOrder (Sample.visitor.visit Sample.parsed) u Sample.parsed.parts rows t ∧
        Sample.parsed.Replaces Sample.file rows.flatten out) ∧
    ∀ u e t, (Sample.parsed.accept Sample.visitor).run.run u = (.error e, t) ↔
      ∃ before p after rows w, Sample.parsed.parts = before ++ p :: after ∧
        InOrder (Sample.visitor.visit Sample.parsed) u before rows w ∧
        (Sample.visitor.visit Sample.parsed p).run.run w = (.error e, t) :=
  ⟨Sample.read_file, Sample.editsInPlace_visitor,
    accept_in_order Sample.read_file Sample.editsInPlace_visitor⟩

/-- Four flag words and the code of the small class after the visit. -/
example : ((Sample.parsed.accept Sample.visitor).run.run []).run =
    (.ok (patched Sample.file [⟨64, [0x10]⟩, ⟨74, [0x11]⟩, ⟨84, [0x12]⟩,
      ⟨105, [0xb1, 6, 0, 0xb7]⟩, ⟨130, [0x14]⟩]), ["A", "m", "m()V", "A"]) := by
  decide +kernel

end ClassAccess
