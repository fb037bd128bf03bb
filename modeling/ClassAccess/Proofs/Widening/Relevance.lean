import ClassAccess.Proofs.ClassFile.Layout
import ClassAccess.Proofs.RuleSet.Lookup
import ClassAccess.Widening.Pass

/-!
# Which rules matter to a class

A class is widened by the rules for the class itself, for its members and for the inner classes that
it mentions, and of these only the order among rules for one target counts. Whatever else is in a
rule set, and in whichever order, the outcome is the same, down to the notes that are taken.

## Main definitions

* `ClassFile.Concerns` — the targets that matter to a class.
* `SameFor` — whether two lists have the same rules for a target.

## Main results

* `ClassFile.accept_congr` — visitors that agree on the elements of a class do the same to it.
* `RuleSet.widen_congr_of_decisive` — rule sets in which the same rules count for all targets that
  matter to a class do the same to it.
* `RuleSet.widen_decided_by_concerns` — so rules for different targets may change places, and rules
  that do not matter may come and go.
-/

set_option autoImplicit false

namespace ClassAccess

open Std (TreeMap)

/-! ## Targets that matter -/

/-- A target matters to the class `c` if it is the class, one of its members or an inner class that
it mentions. -/
def ClassFile.Concerns (c : ClassFile) : Target → Prop
  | .classLevel n => n = dotted c.name ∨ ∃ i ∈ c.innerClasses, n = dotted i.name
  | .field n _ => n = dotted c.name
  | .method n _ => n = dotted c.name

/-- Two lists have the same rules for the target `t`, in the same order. -/
def SameFor (t : Target) (rules rules' : List Rule) : Prop :=
  (rules.filter fun r => r.target = t) = rules'.filter fun r => r.target = t

namespace SameFor

variable {t : Target} {rules rules' : List Rule}

/-- The same rules for a target have the same first one. -/
theorem firstFor_eq (h : SameFor t rules rules') : firstFor rules t = firstFor rules' t := by
  rw [firstFor, firstFor, ← List.head?_filter, ← List.head?_filter, h]

/-- The same rules for a target have the same last one. -/
theorem lastFor_eq (h : SameFor t rules rules') : lastFor rules t = lastFor rules' t := by
  rw [lastFor, lastFor, h]

/-- So the same rule counts. -/
theorem decisive_eq (h : SameFor t rules rules') : decisive rules t = decisive rules' t := by
  rw [decisive, decisive, h.firstFor_eq, h.lastFor_eq]

/-- Rules for different targets may change places. -/
theorem swap {a b : Rule} (hab : a.target ≠ b.target) (front back : List Rule) :
    SameFor t (front ++ a :: b :: back) (front ++ b :: a :: back) := by
  rw [SameFor, List.filter_append, List.filter_append]
  congr 1
  by_cases ha : a.target = t
  · have hb : b.target ≠ t := fun hb => hab (ha.trans hb.symm)
    simp [ha, hb]
  · simp [List.filter_cons, ha]

/-- A rule for another target may come and go. -/
theorem insert {r : Rule} (hr : r.target ≠ t) (front back : List Rule) :
    SameFor t (front ++ r :: back) (front ++ back) := by
  rw [SameFor, List.filter_append, List.filter_append, List.filter_cons_of_neg]
  simpa using hr

end SameFor

/-! ## Visitors that agree -/

/-- A fold depends on its step at the members of the list only. -/
theorem foldlM_congr {m : Type → Type} [Monad m] {α β : Type} {f g : β → α → m β} {as : List α}
    (h : ∀ a ∈ as, ∀ b, f b a = g b a) (b : β) : as.foldlM f b = as.foldlM g b := by
  induction as generalizing b with
  | nil => rfl
  | cons a as ih =>
    obtain ⟨ha, has⟩ := List.forall_mem_cons.1 h
    rw [List.foldlM_cons, List.foldlM_cons, ha b]
    exact congrArg (g b a >>= ·) (funext fun b' => ih has b')

/-- **Visitors that agree on the elements of a class** do the same to it. -/
theorem ClassFile.accept_congr {m : Type → Type} [Monad m] {c : ClassFile} {v w : Visitor m}
    (hclass : v.visitClass c = w.visitClass c)
    (hfield : ∀ f ∈ c.fields, v.visitField c f = w.visitField c f)
    (hmethod : ∀ f ∈ c.methods, ∀ code, v.visitMethod c f code = w.visitMethod c f code)
    (hinner : ∀ i ∈ c.innerClasses, v.visitInnerClass c i = w.visitInnerClass c i) :
    c.accept v = c.accept w := by
  have hfields : ∀ out, c.fields.foldlM (c.acceptField v) out =
      c.fields.foldlM (c.acceptField w) out := by
    refine foldlM_congr fun f hf out => ?_
    rw [acceptField, acceptField, hfield f hf]
  have hmethods : ∀ out, c.methods.foldlM (c.acceptMethod v) out =
      c.methods.foldlM (c.acceptMethod w) out := by
    refine foldlM_congr fun f hf out => ?_
    rw [acceptMethod, acceptMethod, hmethod f hf]
  have hinners : ∀ out, c.innerClasses.foldlM (c.acceptInnerClass v) out =
      c.innerClasses.foldlM (c.acceptInnerClass w) out := by
    refine foldlM_congr fun i hi out => ?_
    rw [acceptInnerClass, acceptInnerClass, hinner i hi]
  simp only [accept, hclass, hfields, hmethods, hinners]

/-! ## Rule sets that agree -/

/-- Tables with the same entries are both empty or both not. -/
theorem isEmpty_congr {a b : TreeMap String Rule} (h : ∀ k : String, a[k]? = b[k]?) :
    a.isEmpty = b.isEmpty := by
  rw [Bool.eq_iff_iff, TreeMap.isEmpty_iff_forall_not_mem, TreeMap.isEmpty_iff_forall_not_mem]
  simp only [TreeMap.mem_iff_isSome_getElem?, h]

namespace RuleSet

section Agree

variable {s t : RuleSet} {c : ClassFile}
  (h : ∀ target, c.Concerns target →
    decisive s.rules.toList target = decisive t.rules.toList target)

include h

/-- The rule for the class as a whole is the same. -/
theorem classRule?_index_congr :
    (RuleIndex.ofSet s c.name).classRule? = (RuleIndex.ofSet t c.name).classRule? := by
  rw [RuleIndex.classRule?_ofSet, RuleIndex.classRule?_ofSet]
  exact h (.classLevel _) (.inl rfl)

/-- So is the one for each inner class that is mentioned. -/
theorem classRule?_congr {i : InnerClass} (hi : i ∈ c.innerClasses) :
    s.classRule? i.name = t.classRule? i.name := by
  rw [s.classRule?_eq, t.classRule?_eq]
  exact h (.classLevel _) (.inr ⟨i, hi, rfl⟩)

/-- The rules for each field are the same. -/
theorem getElem?_fields_congr (name : String) :
    (RuleIndex.ofSet s c.name).fields[name]? = (RuleIndex.ofSet t c.name).fields[name]? := by
  rw [RuleIndex.getElem?_fields, RuleIndex.getElem?_fields]
  exact h (.field _ name) rfl

/-- So are those for each method. -/
theorem getElem?_methods_congr (signature : String) :
    (RuleIndex.ofSet s c.name).methods[signature]? =
      (RuleIndex.ofSet t c.name).methods[signature]? := by
  rw [RuleIndex.getElem?_methods, RuleIndex.getElem?_methods]
  exact h (.method _ signature) rfl

/-- The class is passed over under both sets or under none. -/
theorem appliesNowhere_congr : s.appliesNowhere c = t.appliesNowhere c := by
  have hinner : (c.innerClasses.any fun i => (s.classRule? i.name).isSome) =
      c.innerClasses.any fun i => (t.classRule? i.name).isSome := by
    rw [Bool.eq_iff_iff, List.any_eq_true, List.any_eq_true]
    exact exists_congr fun i => and_congr_right fun hi => by rw [classRule?_congr h hi]
  rw [appliesNowhere, appliesNowhere, hinner, RuleIndex.isEmpty, RuleIndex.isEmpty,
    classRule?_index_congr h, isEmpty_congr (getElem?_fields_congr h),
    isEmpty_congr (getElem?_methods_congr h)]

/-- A visit to every element does the same, with the same notes. -/
theorem fullPass_congr : s.fullPass c = t.fullPass c := by
  have haccept : c.accept (Widening.visitor (RuleIndex.ofSet s c.name)) =
      c.accept (Widening.visitor (RuleIndex.ofSet t c.name)) := by
    refine ClassFile.accept_congr ?_ (fun f _ => ?_) (fun m _ code => ?_) fun i hi => ?_
    · simp only [Widening.visitor, classRule?_index_congr h]
    · simp only [Widening.visitor, RuleIndex.fieldRule?, getElem?_fields_congr h]
    · simp only [Widening.visitor, RuleIndex.methodRule?, getElem?_methods_congr h]
    · have hrule : (RuleIndex.ofSet s c.name).innerClassRule? i.name =
          (RuleIndex.ofSet t c.name).innerClassRule? i.name := classRule?_congr h hi
      simp only [Widening.visitor, hrule]
  rw [fullPass, fullPass, haccept]

end Agree

/-- **Rule sets in which the same rules count for all targets that matter to a class** do the same
to it: they give the same report or the same error. -/
theorem widen_congr_of_decisive {s t : RuleSet} {file : List UInt8} {c : ClassFile}
    (hread : ClassFile.read file = .ok c)
    (h : ∀ target, c.Concerns target →
      decisive s.rules.toList target = decisive t.rules.toList target) :
    s.widen file = t.widen file := by
  have hpass : s.pass c = t.pass c := by
    rw [pass, pass, appliesNowhere_congr h, fullPass_congr h]
  rw [widen, widen, hread]
  simp only [hpass]

/-- Rule sets that have the same rules for all targets that matter to a class do the same to it. -/
theorem widen_congr {s t : RuleSet} {file : List UInt8} {c : ClassFile}
    (hread : ClassFile.read file = .ok c)
    (h : ∀ target, c.Concerns target → SameFor target s.rules.toList t.rules.toList) :
    s.widen file = t.widen file :=
  widen_congr_of_decisive hread fun target htarget => (h target htarget).decisive_eq

/-- Lists of rules in which the same rule counts for every target do the same to every file. -/
theorem widen_ofRules_congr_of_decisive {rules rules' : List Rule}
    (h : ∀ target, decisive rules target = decisive rules' target) (file : List UInt8) :
    (ofRules rules).widen file = (ofRules rules').widen file := by
  cases hread : ClassFile.read file with
  | error e => rw [widen, widen, hread]
  | ok c => exact widen_congr_of_decisive hread fun target _ => h target

/-- Lists of rules that have the same rules for every target do the same to every file. -/
theorem widen_ofRules_congr {rules rules' : List Rule} (h : ∀ target, SameFor target rules rules')
    (file : List UInt8) : (ofRules rules).widen file = (ofRules rules').widen file :=
  widen_ofRules_congr_of_decisive (fun target => (h target).decisive_eq) file

/-- **Only the rules about a class matter to it, target by target.** Rule sets that have the same
rules for the class, for its members and for the inner classes that it mentions give the same report
or the same error. So rules for different targets may change places, and a rule for a target that
does not matter may come and go. -/
theorem widen_decided_by_concerns (file : List UInt8) :
    (∀ (c : ClassFile) (s t : RuleSet), ClassFile.read file = .ok c →
      (∀ target, c.Concerns target → SameFor target s.rules.toList t.rules.toList) →
        s.widen file = t.widen file) ∧
      (∀ (front back : List Rule) (a b : Rule), a.target ≠ b.target →
        (ofRules (front ++ a :: b :: back)).widen file =
          (ofRules (front ++ b :: a :: back)).widen file) ∧
      ∀ (c : ClassFile) (front back : List Rule) (r : Rule), ClassFile.read file = .ok c →
        ¬ c.Concerns r.target →
          (ofRules (front ++ r :: back)).widen file = (ofRules (front ++ back)).widen file := by
  refine ⟨fun c s t hread h => widen_congr hread h, fun front back a b hab => ?_,
    fun c front back r hread hr => widen_congr hread fun target htarget => ?_⟩
  · exact widen_ofRules_congr (fun _ => .swap hab front back) file
  · have hne : r.target ≠ target := by
      rintro rfl
      exact hr htarget
    exact .insert hne front back

/-- The small class, with two of its rules in another order and a rule for another class. -/
theorem widen_decided_by_concerns_sample :
    let other : Rule := ⟨.field "B" "*", .everywhere, Edits.none⟩
    let whole : Rule := ⟨.classLevel "A", .everywhere, Edits.none⟩
    let fields : Rule := ⟨.field "A" "*", .ownClass, Edits.none⟩
    (ofRules [other, whole, fields]).widen Sample.file =
        (ofRules [whole, fields]).widen Sample.file ∧
      (ofRules [whole, fields]).widen Sample.file = (ofRules [fields, whole]).widen Sample.file ∧
      (ofRules [other, whole, fields]).widen Sample.file =
        (ofRules [fields, whole]).widen Sample.file := by
  intro other whole fields
  obtain ⟨hsame, hswap, hdrop⟩ := widen_decided_by_concerns Sample.file
  have hother : ¬ Sample.parsed.Concerns other.target := by
    show "B" ≠ dotted "A"
    decide
  refine ⟨hdrop _ [] _ other Sample.read_file hother, hswap [] [] whole fields (by decide),
    hsame _ _ _ Sample.read_file fun target htarget => ?_⟩
  have hne : other.target ≠ target := by
    rintro rfl
    exact hother htarget
  exact (SameFor.insert hne [] [whole, fields]).trans (SameFor.swap (by decide) [] [])

end RuleSet

end ClassAccess
