import ClassAccess.Proofs.Widening.Gives
import ClassAccess.Proofs.Widening.Verdict

/-!
# Visits to the elements of a class

The visitor of a rule set gives the verdicts about the elements of a class and notes them. It fails
only where a method is opened and a call in its code leads nowhere.

## Main results

* `exists_gives_visitMethod` — the visit to one method.
* `RuleSet.exists_gives_ask` — the visits to all elements.
-/

set_option autoImplicit false

namespace ClassAccess

section Visits

variable {s : RuleSet} {c : ClassFile}

/-- Settling a decision notes it and gives its flag word. -/
theorem gives_settle (element : Element) (before : Flags) (v : Override) :
    Gives (Widening.settle element before v) (.ok v.flags) [.decided element before v] :=
  (Gives.note _).bind (g := fun _ => .ok v.flags) fun _ _ => .pure v.flags

/-- The visit to a class. -/
theorem gives_visitClass :
    Gives ((Widening.visitor (RuleIndex.ofSet s c.name)).visitClass c)
      (.ok (verdict s.rules.toList c (.whole c)).flags)
      [.decided (Part.whole c).element c.flags (verdict s.rules.toList c (.whole c))] := by
  have hv : overrideAccess c.flags (RuleIndex.ofSet s c.name).classRule? =
      verdict s.rules.toList c (.whole c) := by
    refine overrideAccess_eq_verdict (p := .whole c) ?_ rfl
    rw [RuleIndex.classRule?_ofSet]
    rfl
  rw [← hv]
  exact gives_settle _ _ _

/-- The visit to a field. -/
theorem gives_visitField (f : Field) :
    Gives ((Widening.visitor (RuleIndex.ofSet s c.name)).visitField c f)
      (.ok (verdict s.rules.toList c (.field f)).flags)
      [.decided (Part.field f).element f.flags (verdict s.rules.toList c (.field f))] := by
  obtain ⟨r?, hr, hrequest⟩ := RuleIndex.exists_fieldRule? s c.name f.name
  have hv : overrideAccess f.flags r? = verdict s.rules.toList c (.field f) :=
    overrideAccess_eq_verdict (p := .field f) hrequest rfl
  show Gives (Widening.ruleFor c ((RuleIndex.ofSet s c.name).fieldRule? f.name) >>= fun rule =>
    Widening.settle (.field f.name) f.flags (overrideAccess f.flags rule)) _ _
  rw [hr, ← hv]
  show Gives (pure r? >>= _) _ _
  rw [pure_bind]
  exact gives_settle _ _ _

/-- The visit to an inner class. -/
theorem gives_visitInnerClass (i : InnerClass) :
    Gives ((Widening.visitor (RuleIndex.ofSet s c.name)).visitInnerClass c i)
      (.ok (verdict s.rules.toList c (.innerClass i)).flags)
      [.decided (Part.innerClass i).element i.flags
        (verdict s.rules.toList c (.innerClass i))] := by
  have hv : overrideAccess i.flags ((RuleIndex.ofSet s c.name).innerClassRule? i.name) =
      verdict s.rules.toList c (.innerClass i) := by
    refine overrideAccess_eq_verdict (p := .innerClass i) ?_ rfl
    show (s.classRule? i.name).map Rule.request = _
    rw [s.classRule?_eq]
    rfl
  rw [← hv]
  exact gives_settle _ _ _

/-- Code in which nothing is rewritten. -/
theorem map_rewrite_nil (code? : Option (List UInt8)) :
    code?.map (SelfCall.rewrite []) = code? := by
  cases code? <;> rfl

/-- A method that is not opened keeps its code. -/
theorem methodAnswer_of_not {rules : List Rule} {m : Method}
    (h : m.isOpenedBy (verdict rules c (.method m)).flags = false) :
    methodAnswer rules c m = .ok ((verdict rules c (.method m)).flags, c.code? m) ∧
      callsOf rules c m = [] := by
  have hsites := openedSites_of_not (c := c) h
  refine ⟨ClassFile.answerFor_eq_ok_iff.2 ⟨[], hsites, ?_⟩, ?_⟩
  · rw [map_rewrite_nil]
  · rw [callsOf, hsites]
    rfl

/-- A method that nothing is asked for is left alone. -/
theorem methodAnswer_of_unasked {rules : List Rule} {m : Method}
    (h : Request.about rules c (.method m) = none) :
    methodAnswer rules c m = .ok (m.flags, c.code? m) ∧ callsOf rules c m = [] := by
  have hv := verdict_of_unasked h
  have hnot : m.isOpenedBy (verdict rules c (.method m)).flags = false := by
    rw [hv]
    exact m.isOpenedBy_flags
  obtain ⟨hanswer, hcalls⟩ := methodAnswer_of_not hnot
  rw [hv] at hanswer
  exact ⟨hanswer, hcalls⟩

/-- The visit to a method that nothing is asked for. -/
theorem gives_of_unasked {rules : List Rule} {m : Method}
    (h : Request.about rules c (.method m) = none) :
    Gives (pure (m.flags, c.code? m)) (methodAnswer rules c m) [] ∧
      TellOf [] (flagChange? rules c (.method m)).toList (denial? rules c (.method m)).toList
        (callsOf rules c m) := by
  obtain ⟨hanswer, hcalls⟩ := methodAnswer_of_unasked h
  rw [hanswer, hcalls]
  exact ⟨.pure _, .unasked h⟩

/-- The visit to a constructor. -/
theorem gives_widenMethod_constructor {rules : List Rule} {m : Method} {rule : Rule}
    (hname : m.name = Method.constructorName)
    (hrequest : Request.about rules c (.method m) = some rule.request) :
    Gives (Widening.widenMethod c m rule (c.code? m)) (methodAnswer rules c m)
        [.decided (Part.method m).element m.flags (verdict rules c (.method m))] ∧
      callsOf rules c m = [] := by
  have hv : verdict rules c (.method m) = overrideLevel m.flags rule.level := by
    have hconstructor : (Part.method m).isConstructor = true := decide_eq_true hname
    rw [verdict, hrequest, hconstructor]
    exact (overrideLevel_eq m.flags rule.request).symm
  have hnot : m.isOpenedBy (verdict rules c (.method m)).flags = false := by
    simp [Method.isOpenedBy, hname]
  obtain ⟨hanswer, hcalls⟩ := methodAnswer_of_not hnot
  refine ⟨?_, hcalls⟩
  rw [Widening.widenMethod, if_pos hname, hanswer, hv]
  exact (gives_settle _ _ _).bind (g := fun flags => .ok (flags, c.code? m)) fun flags _ =>
    .pure (flags, c.code? m)

/-- The visit to a method that is not opened. -/
theorem gives_widenMethod_of_not {rules : List Rule} {m : Method} {rule : Rule}
    (hname : m.name ≠ Method.constructorName)
    (hv : overrideAccess m.flags (some rule) = verdict rules c (.method m))
    (hnot : Widening.isOpened m.flags (verdict rules c (.method m)).flags = false) :
    Gives (Widening.widenMethod c m rule (c.code? m)) (methodAnswer rules c m)
        [.decided (Part.method m).element m.flags (verdict rules c (.method m))] ∧
      callsOf rules c m = [] := by
  have hnot' : m.isOpenedBy (verdict rules c (.method m)).flags = false := by
    rw [Method.isOpenedBy, hnot, Bool.and_false]
  obtain ⟨hanswer, hcalls⟩ := methodAnswer_of_not hnot'
  refine ⟨?_, hcalls⟩
  rw [Widening.widenMethod, if_neg hname, hanswer, hv]
  refine (gives_settle _ _ _).bind (g := fun flags => .ok (flags, c.code? m)) fun flags hflags => ?_
  cases hflags
  rw [hnot, if_neg Bool.false_ne_true]
  exact .pure _

/-- The visit to a method that is opened. -/
theorem exists_gives_widenMethod_opened {rules : List Rule} {m : Method} {rule : Rule}
    (hname : m.name ≠ Method.constructorName) (hinit : m.name ≠ Method.initializerName)
    (hv : overrideAccess m.flags (some rule) = verdict rules c (.method m))
    (hopen : Widening.isOpened m.flags (verdict rules c (.method m)).flags = true) :
    ∃ notes, Gives (Widening.widenMethod c m rule (c.code? m)) (methodAnswer rules c m)
        (.decided (Part.method m).element m.flags (verdict rules c (.method m)) :: notes) ∧
      TellOf notes [] [] (callsOf rules c m) := by
  have hopen' : m.isOpenedBy (verdict rules c (.method m)).flags = true := by
    simp [Method.isOpenedBy, hname, hinit, hopen]
  rw [Widening.widenMethod, if_neg hname, hv, methodAnswer, callsOf, ClassFile.answerFor]
  cases hcode : c.code? m with
  | none =>
    rw [openedSites_of_none hcode]
    refine ⟨[], (gives_settle _ _ _).bind (g := fun flags => .ok (flags, none))
      fun flags hflags => ?_, .nil⟩
    cases hflags
    rw [hopen, if_pos rfl]
    exact .pure _
  | some code =>
    rw [openedSites_of_opened hopen' hcode]
    cases hsites : SelfCall.sites c.pool c.name m.name m.descriptor code with
    | error e =>
      refine ⟨[], (gives_settle _ _ _).bind
        (g := fun _ => .error ⟨some c.name, .classFile e⟩) fun flags hflags => ?_, .nil⟩
      cases hflags
      rw [hopen, if_pos rfl]
      have hthrow : Widening.rewriteSelfCalls c m rule code =
          MonadExcept.throw ⟨some c.name, .classFile e⟩ := by
        rw [Widening.rewriteSelfCalls, hsites]
      show Gives (Widening.rewriteSelfCalls c m rule code >>= _) _ []
      rw [hthrow]
      exact (Gives.throw _).bind (g := fun code => .ok (_, some code)) fun _ _ => .pure _
    | ok pcs =>
      refine ⟨[.rewrote m.name m.descriptor rule (m.callsAt pcs)], (gives_settle _ _ _).bind
        (g := fun flags => .ok (flags, some (SelfCall.rewrite pcs code))) fun flags hflags => ?_,
        rfl, rfl, List.append_nil _⟩
      cases hflags
      rw [hopen, if_pos rfl]
      have hrewrite : Gives (Widening.rewriteSelfCalls c m rule code)
          (.ok (SelfCall.rewrite pcs code))
          [.rewrote m.name m.descriptor rule (m.callsAt pcs)] := by
        rw [Widening.rewriteSelfCalls, hsites]
        exact (Gives.note _).bind (g := fun _ => .ok (SelfCall.rewrite pcs code)) fun _ _ => .pure _
      exact hrewrite.bind (g := fun code => .ok (_, some code)) fun _ _ => .pure _

/-- **The visit to a method.**

**Proof sketch.** Follow the visit. A method that nothing is asked for is left alone. Otherwise the
decision is settled; only if it opens the method are the calls in its code rewritten. -/
theorem exists_gives_visitMethod (m : Method) :
    ∃ notes, Gives ((Widening.visitor (RuleIndex.ofSet s c.name)).visitMethod c m (c.code? m))
        (methodAnswer s.rules.toList c m) notes ∧
      TellOf notes (flagChange? s.rules.toList c (.method m)).toList
        (denial? s.rules.toList c (.method m)).toList (callsOf s.rules.toList c m) := by
  show ∃ notes, Gives (if m.name = Method.initializerName then pure (m.flags, c.code? m) else
      Widening.ruleFor c ((RuleIndex.ofSet s c.name).methodRule? m.name m.descriptor) >>= _)
    _ notes ∧ _
  by_cases hinit : m.name = Method.initializerName
  · rw [if_pos hinit]
    exact ⟨[], gives_of_unasked (if_pos hinit)⟩
  obtain ⟨r?, hr, hrequest⟩ := RuleIndex.exists_methodRule? s c.name m.name m.descriptor
  have habout : r?.map Rule.request = Request.about s.rules.toList c (.method m) := by
    rw [hrequest]
    exact (if_neg hinit).symm
  rw [if_neg hinit, hr]
  show ∃ notes, Gives (pure r? >>= _) _ notes ∧ _
  rw [pure_bind]
  cases r? with
  | none => exact ⟨[], gives_of_unasked habout.symm⟩
  | some rule =>
    show ∃ notes, Gives (Widening.widenMethod c m rule (c.code? m)) _ notes ∧ _
    by_cases hname : m.name = Method.constructorName
    · obtain ⟨hgives, hcalls⟩ := gives_widenMethod_constructor hname habout.symm
      rw [hcalls]
      exact ⟨_, hgives, .decided _ c (.method m)⟩
    have hv := overrideAccess_eq_verdict (p := .method m) habout (decide_eq_false hname)
    cases hopen : Widening.isOpened m.flags (verdict s.rules.toList c (.method m)).flags with
    | false =>
      obtain ⟨hgives, hcalls⟩ := gives_widenMethod_of_not hname hv hopen
      rw [hcalls]
      exact ⟨_, hgives, .decided _ c (.method m)⟩
    | true =>
      obtain ⟨notes, hgives, htell⟩ := exists_gives_widenMethod_opened hname hinit hv hopen
      have happend := (TellOf.decided s.rules.toList c (.method m)).append htell
      rw [List.append_nil, List.append_nil, List.nil_append] at happend
      exact ⟨_, hgives, happend⟩

/-- Decisions about the members of a list tell of their changes and refusals. -/
theorem tellOf_flatMap_decided {α : Type} (rules : List Rule) (c : ClassFile) (as : List α)
    (part : α → Part) :
    TellOf
      (as.flatMap fun a => [.decided (part a).element (part a).flags (verdict rules c (part a))])
      ((as.map part).filterMap (flagChange? rules c)) ((as.map part).filterMap (denial? rules c))
      [] := by
  have h := TellOf.flatMap fun a (_ : a ∈ as) => TellOf.decided rules c (part a)
  rw [List.filterMap_map, List.filterMap_map]
  have hnil : as.flatMap (fun _ => ([] : List RewrittenCall)) = [] := by simp
  rwa [hnil] at h

/-- What the parts of a class give, kind by kind. -/
theorem ClassFile.filterMap_parts {α : Type} (c : ClassFile) (g : Part → Option α) :
    c.parts.filterMap g = (g (.whole c)).toList ++ ((c.fields.map .field).filterMap g ++
      ((c.methods.filterMap fun m => g (.method m)) ++
        ((c.innerClasses.map .innerClass).filterMap g ++ []))) := by
  rw [parts, List.filterMap_cons, List.append_nil, List.filterMap_append, List.filterMap_append,
    List.filterMap_map (l := c.methods)]
  cases g (.whole c) <;> rfl

/-- **Asking the visitor of a rule set gives the answers and notes them.** -/
theorem RuleSet.exists_gives_ask (s : RuleSet) (c : ClassFile) :
    ∃ notes, Gives (c.ask (Widening.visitor (RuleIndex.ofSet s c.name))) (s.answers c) notes ∧
      TellOf notes (c.parts.filterMap (flagChange? s.rules.toList c))
        (c.parts.filterMap (denial? s.rules.toList c))
        (c.methods.flatMap (callsOf s.rules.toList c)) := by
  choose n hgives htell using exists_gives_visitMethod (s := s) (c := c)
  have hask := gives_visitClass (s := s) (c := c) |>.bind fun flags _ =>
    (Gives.mapM fun f (_ : f ∈ c.fields) => gives_visitField (s := s) (c := c) f).bind fun ws _ =>
      (Gives.mapM fun m (_ : m ∈ c.methods) => hgives m).bind fun ms _ =>
        (Gives.mapM fun i (_ : i ∈ c.innerClasses) =>
            gives_visitInnerClass (s := s) (c := c) i).bind
          fun is _ => Gives.pure (ClassFile.Answers.mk flags ws ms is)
  have hpure : ∀ {α : Type} (as : List α) (g : α → Flags),
      as.mapM (fun a => (.ok (g a) : Except WideningError Flags)) = .ok (as.map g) :=
    fun as g => List.mapM_pure
  rw [hpure, hpure] at hask
  refine ⟨_, hask, ?_⟩
  rw [c.filterMap_parts, c.filterMap_parts]
  have hcalls : c.methods.flatMap (callsOf s.rules.toList c) =
      [] ++ ([] ++ (c.methods.flatMap (callsOf s.rules.toList c) ++ ([] ++ []))) := by simp
  rw [hcalls]
  exact (TellOf.decided s.rules.toList c (.whole c)).append
    ((tellOf_flatMap_decided s.rules.toList c c.fields .field).append
      ((TellOf.flatMap fun m _ => htell m).append
        ((tellOf_flatMap_decided s.rules.toList c c.innerClasses .innerClass).append .nil)))

end Visits

end ClassAccess
