import ClassAccess.Proofs.Widening.Failures
import ClassAccess.Proofs.Widening.OnePass
import ClassAccess.Proofs.Widening.Relevance
import Mathlib.Data.List.Flatten

/-!
# More rules give more access

A rule that is added to others takes nothing away, as long as it overrules none of them: every
element of a class is at least as accessible as before, and where the calls of a method were
rewritten, they still are, in the same way. A rule overrules no other one if its target is new; for
classes as a whole, a rule may also stand behind another one for the same class, which it leaves in
force.

## Main definitions

* `Request.AtMost` — a request for at most the level of another one.
* `Rule.AddedTo` — a rule in a place where it overrules no other rule.
* `Method.StaysPatched` — a method whose code is rewritten under some rules and under more.

## Main results

* `Rule.AddedTo.decisive_cases` — the rule that counts for a target is the same, or there was none.
* `Request.about_atMost` — at least the same level is asked for every element.
* `RuleSet.widen_with_more` — at least the same access, and the same calls.
-/

set_option autoImplicit false

namespace ClassAccess

/-! ## Requests -/

namespace Request

variable {q? q'? r? r'? : Option Request}

/-- If `q?` asks for anything, then `r?` asks for its level or a wider one. -/
def AtMost (q? r? : Option Request) : Prop :=
  ∀ q, q? = some q → ∃ r, r? = some r ∧ q.level ≤ r.level

/-- Nothing is asked for at most what anything is. -/
theorem AtMost.none (r? : Option Request) : AtMost none r? := by
  intro q hq
  cases hq

/-- A request asks for its own level. -/
theorem AtMost.refl (q? : Option Request) : AtMost q? q? :=
  fun q hq => ⟨q, hq, Nat.le_refl _⟩

/-- **Requests for more make a request for more** when they are put together. -/
theorem AtMost.both (hq : AtMost q? q'?) (hr : AtMost r? r'?) :
    AtMost (both q? r?) (Request.both q'? r'?) := by
  -- the level of what is put together is the wider one of the levels that there are
  have hmax : ∀ a b : Level, a ≤ max a b ∧ b ≤ max a b := by
    intro a b
    have hrank := Level.rank_max a b
    constructor
    · show a.rank ≤ (max a b).rank
      omega
    · show b.rank ≤ (max a b).rank
      omega
  intro s hs
  cases q? with
  | none =>
    rw [both_none_left] at hs
    obtain ⟨r', rfl, hle⟩ := hr s hs
    cases q'? with
    | none => exact ⟨r', rfl, hle⟩
    | some q' => exact ⟨_, rfl, Nat.le_trans hle (hmax q'.level r'.level).2⟩
  | some q =>
    obtain ⟨q', rfl, hqle⟩ := hq q rfl
    cases r? with
    | none =>
      rw [both_none_right] at hs
      cases hs
      cases r'? with
      | none => exact ⟨q', rfl, hqle⟩
      | some r' => exact ⟨_, rfl, Nat.le_trans hqle (hmax q'.level r'.level).1⟩
    | some r =>
      obtain ⟨r', rfl, hrle⟩ := hr r rfl
      cases hs
      refine ⟨_, rfl, ?_⟩
      have hle : q.level.rank ≤ q'.level.rank ∧ r.level.rank ≤ r'.level.rank := ⟨hqle, hrle⟩
      show (max q.level r.level).rank ≤ (max q'.level r'.level).rank
      rw [Level.rank_max, Level.rank_max]
      omega

/-- **A ruling on a request for more gives more access**, whatever bits the word has. -/
theorem AtMost.ruling_le (h : AtMost q? r?) (levelOnly : Bool) (w : Flags) :
    Level.ofFlags (ruling levelOnly q? w).flags ≤ Level.ofFlags (ruling levelOnly r? w).flags := by
  show (Level.ofFlags (ruling levelOnly q? w).flags).rank ≤ _
  cases q? with
  | none =>
    cases r? with
    | none => exact Nat.le_refl _
    | some r =>
      rw [ofFlags_ruling_some, Level.rank_max]
      exact Nat.le_max_left ..
  | some q =>
    obtain ⟨r, rfl, hle⟩ := h q rfl
    have hrank : q.level.rank ≤ r.level.rank := hle
    rw [ofFlags_ruling_some, ofFlags_ruling_some, Level.rank_max, Level.rank_max]
    omega

end Request

/-! ## Adding a rule -/

/-- The rule `r` stands between the rules `front` and `back` and overrules none of them. -/
inductive Rule.AddedTo (front back : List Rule) (r : Rule) : Prop
  /-- No other rule has its target. -/
  | newTarget (h : ∀ x ∈ front ++ back, x.target ≠ r.target)
  /-- It is for a class as a whole and stands behind another rule for that class. -/
  | behind (classLevel : r.target.isClassLevel = true) (earlier : ∃ x ∈ front, x.target = r.target)

section Added

variable {front back : List Rule} {r : Rule}

/-- **The rule that counts for a target is the same** as before the rule was added, or there was
none. -/
theorem Rule.AddedTo.decisive_cases (h : r.AddedTo front back) (t : Target) :
    decisive (front ++ back) t = none ∨
      decisive (front ++ r :: back) t = decisive (front ++ back) t := by
  by_cases ht : r.target = t
  · subst ht
    cases h with
    | newTarget hnew =>
      left
      have hnone : (front ++ back).filter (fun x => x.target = r.target) = [] := by
        rw [List.filter_eq_nil_iff]
        intro x hx
        simpa using hnew x hx
      have hfirst : firstFor (front ++ back) r.target = none := by
        rw [firstFor, ← List.head?_filter, hnone]
        rfl
      have hlast : lastFor (front ++ back) r.target = none := by
        rw [lastFor, hnone]
        rfl
      rw [decisive, hfirst, hlast, ite_self]
    | behind classLevel earlier =>
      right
      obtain ⟨x, hx, hxr⟩ := earlier
      have hfound : (front.find? fun y => y.target = r.target).isSome = true := by
        rw [List.find?_isSome]
        exact ⟨x, hx, by simpa using hxr⟩
      rw [decisive, decisive, classLevel, if_pos rfl, if_pos rfl, firstFor, firstFor,
        List.find?_append, List.find?_append, Option.or_of_isSome hfound,
        Option.or_of_isSome hfound]
  · exact .inr (SameFor.insert ht front back).decisive_eq

/-- At least the same level is asked for by the rule that counts for a target. -/
theorem Rule.AddedTo.decisive_atMost (h : r.AddedTo front back) (t : Target) :
    Request.AtMost ((decisive (front ++ back) t).map Rule.request)
      ((decisive (front ++ r :: back) t).map Rule.request) := by
  rcases h.decisive_cases t with hnone | hsame
  · rw [hnone]
    exact .none _
  · rw [hsame]
    exact .refl _

/-- At least the same level is asked for a method. -/
theorem Request.forMethod_atMost (h : r.AddedTo front back) (className name descriptor : String) :
    AtMost (forMethod (front ++ back) className name descriptor)
      (forMethod (front ++ r :: back) className name descriptor) :=
  (h.decisive_atMost (.method (dotted className) Target.anyMethod)).both
    (h.decisive_atMost (.method (dotted className) (name ++ descriptor)))

/-- **At least the same level is asked for every element of a class** after a rule was added. -/
theorem Request.about_atMost (h : r.AddedTo front back) (c : ClassFile) (p : Part) :
    AtMost (about (front ++ back) c p) (about (front ++ r :: back) c p) := by
  cases p with
  | whole d => exact h.decisive_atMost (.classLevel (dotted d.name))
  | field f =>
    exact (h.decisive_atMost (.field (dotted c.name) Target.anyField)).both
      (h.decisive_atMost (.field (dotted c.name) f.name))
  | method m =>
    by_cases hinit : m.name = Method.initializerName
    · simp only [about, if_pos hinit]
      exact .none _
    · simp only [about, if_neg hinit]
      exact forMethod_atMost h c.name m.name m.descriptor
  | innerClass i => exact h.decisive_atMost (.classLevel (dotted i.name))

/-- The verdict about an element gives at least the same access after a rule was added. -/
theorem ofFlags_verdict_le (h : r.AddedTo front back) (c : ClassFile) (p : Part) :
    Level.ofFlags (verdict (front ++ back) c p).flags ≤
      Level.ofFlags (verdict (front ++ r :: back) c p).flags := by
  exact (Request.about_atMost h c p).ruling_le p.isConstructor p.flags

/-- A method that is opened is still opened after a rule was added. -/
theorem isOpenedBy_verdict_of_added (h : r.AddedTo front back) {c : ClassFile} {m : Method}
    (hopened : m.isOpenedBy (verdict (front ++ back) c (.method m)).flags = true) :
    m.isOpenedBy (verdict (front ++ r :: back) c (.method m)).flags = true := by
  obtain ⟨hctor, hinit, hprivate, q, hq, hlt⟩ := isOpenedBy_verdict_iff.1 hopened
  obtain ⟨q', hq', hle⟩ := Request.forMethod_atMost h c.name m.name m.descriptor q hq
  exact isOpenedBy_verdict_iff.2 ⟨hctor, hinit, hprivate, q', hq', Nat.lt_of_lt_of_le hlt hle⟩

end Added

/-! ## Methods -/

/-- A method `m` of the class `c` became `now` in the class `d` under some rules and `later` in the
class `d'` under more, and where the first made something of its code the second did the same. -/
structure Method.StaysPatched (c d d' : ClassFile) (m now later : Method) : Prop where
  /-- Under the first rules it is the same method but for its flag word. -/
  isNow : now = m.withFlags now.flags
  /-- So it is under more rules. -/
  isLater : later = m.withFlags later.flags
  /-- What is opened is still opened. -/
  opened : m.isOpenedBy now.flags = true → m.isOpenedBy later.flags = true
  /-- Then its code is the same under both. -/
  code : m.isOpenedBy now.flags = true → d'.code? later = d.code? now
  /-- Code that is no longer the old one is the same under both. -/
  patched : d.code? now ≠ c.code? m → d'.code? later = d.code? now

section Answers

variable {front back : List Rule} {r : Rule} {file : List UInt8} {c : ClassFile}
  {a a' : ClassFile.Answers}

/-- **Every element of a class is at least as accessible** with the answers to more rules. -/
theorem forall₂_parts_of_added (hadd : r.AddedTo front back)
    (ha : (RuleSet.ofRules (front ++ back)).answers c = .ok a)
    (ha' : (RuleSet.ofRules (front ++ r :: back)).answers c = .ok a') :
    List.Forall₂ (fun p p' => p.Matches p' ∧ Level.ofFlags p.flags ≤ Level.ofFlags p'.flags)
      (c.updated a).parts (c.updated a').parts := by
  -- both lists of elements are compared with that of the class itself
  refine forall₂_comp (fun {p q p'} hp hp' => ?_) (matches_updated ha).flip (matches_updated ha')
  obtain ⟨⟨helement, hoffset⟩, hflags⟩ := hp
  obtain ⟨⟨helement', hoffset'⟩, hflags'⟩ := hp'
  refine ⟨⟨helement'.trans helement.symm, hoffset'.trans hoffset.symm⟩, ?_⟩
  rw [hflags, hflags']
  exact ofFlags_verdict_le hadd c q

/-- **A method that is opened is rewritten in the same way** with the answers to more rules.

**Proof sketch.** It is opened under more rules, too, and the calls of a method to itself do not
depend on the flag word that opens it. The code of a method that is not opened is the old one. -/
theorem staysPatched_of_added (hadd : r.AddedTo front back) (h : ClassFile.read file = .ok c)
    (ha : (RuleSet.ofRules (front ++ back)).answers c = .ok a)
    (ha' : (RuleSet.ofRules (front ++ r :: back)).answers c = .ok a') {m : Method}
    (hm : m ∈ c.methods) :
    m.StaysPatched c (c.updated a) (c.updated a')
      (m.withFlags (verdict (front ++ back) c (.method m)).flags)
      (m.withFlags (verdict (front ++ r :: back) c (.method m)).flags) := by
  have hopened : m.isOpenedBy (verdict (front ++ back) c (.method m)).flags = true →
      m.isOpenedBy (verdict (front ++ r :: back) c (.method m)).flags = true :=
    isOpenedBy_verdict_of_added hadd
  have hcode : m.isOpenedBy (verdict (front ++ back) c (.method m)).flags = true →
      (c.updated a').code? (m.withFlags (verdict (front ++ r :: back) c (.method m)).flags) =
        (c.updated a).code? (m.withFlags (verdict (front ++ back) c (.method m)).flags) := by
    intro hw
    obtain ⟨pcs, hsites, -⟩ := ClassFile.exists_answerFor_of_mem ha hm
    have hsites' :
        openedSites c m (verdict (front ++ r :: back) c (.method m)).flags = .ok pcs := by
      rw [← hsites]
      exact openedSites_eq (hopened hw) hw
    rw [code?_updated h ha hm hsites, code?_updated h ha' hm hsites']
  refine ⟨rfl, rfl, hopened, hcode, fun hpatched => hcode ?_⟩
  by_contra hnot
  exact hpatched ((rebound_of_answers h ha hm).unopened (Bool.eq_false_iff.2 hnot))

/-- The calls of a method that are rewritten are still rewritten after a rule was added. -/
theorem callsOf_sublist_of_added (hadd : r.AddedTo front back) (c : ClassFile) (m : Method) :
    (callsOf (front ++ back) c m).Sublist (callsOf (front ++ r :: back) c m) := by
  cases hw : m.isOpenedBy (verdict (front ++ back) c (.method m)).flags with
  | true =>
    have hsites := openedSites_eq (c := c) hw (isOpenedBy_verdict_of_added hadd hw)
    rw [callsOf, callsOf, hsites]
  | false =>
    rw [callsOf, openedSites_of_not hw]
    exact List.nil_sublist _

end Answers

namespace RuleSet

/-- **More rules give more access.** A rule is added to others and overrules none of them: its
target is new, or it is for a class as a whole and stands behind another one for that class. Where
both rule sets can be applied, every flag word is at least as accessible with the rule as without
it. A method whose code was rewritten without it has the same code with it, and all calls that were
reported still are.

**Proof sketch.** For each target, the rule that counts is the same as before, or there was none. So
at least as much is asked for every element, also where two rules are put together, and the policy
gives at least as much to who asks for more. A method that is opened is private and is raised; so
more rules open it as well, and its calls to itself do not depend on its flag word. -/
theorem widen_with_more {front back : List Rule} {r : Rule} {file : List UInt8} {rep rep' : Report}
    (hadd : r.AddedTo front back) (h : (ofRules (front ++ back)).widen file = .ok rep)
    (h' : (ofRules (front ++ r :: back)).widen file = .ok rep') :
    ∃ c d d', ClassFile.read file = .ok c ∧ ClassFile.read rep.bytes = .ok d ∧
      ClassFile.read rep'.bytes = .ok d' ∧
      List.Forall₂ (fun p p' => p.Matches p' ∧ Level.ofFlags p.flags ≤ Level.ofFlags p'.flags)
        d.parts d'.parts ∧
      List.Forall₂ (fun m after => m.StaysPatched c d d' after.1 after.2) c.methods
        (d.methods.zip d'.methods) ∧
      rep.calls.Sublist rep'.calls := by
  obtain ⟨c, a, hread, ha, htells, hd⟩ := read_of_widen h
  obtain ⟨c', a', hread', ha', htells', hd'⟩ := read_of_widen h'
  rw [hread, Except.ok.injEq] at hread'
  subst hread'
  have hmethods : List.Forall₂
      (fun m after => m.StaysPatched c (c.updated a) (c.updated a') after.1 after.2) c.methods
      ((c.updated a).methods.zip (c.updated a').methods) := by
    rw [methods_updated ha, methods_updated ha', List.zip_map', List.forall₂_map_right_iff,
      List.forall₂_same]
    exact fun m hm => staysPatched_of_added hadd hread ha ha' hm
  refine ⟨c, c.updated a, c.updated a', hread, hd, hd', forall₂_parts_of_added hadd ha ha',
    hmethods, ?_⟩
  rw [htells.calls, htells'.calls]
  exact .flatMap_right _ fun m _ => callsOf_sublist_of_added hadd c m

end RuleSet

/-! ## The small class -/

namespace Sample

/-- The rules about the small class without the one for its method alone. -/
def fewerRules : List Rule :=
  [⟨.classLevel "A", .everywhere, .none⟩, ⟨.field "A" "*", .ownClass, .none⟩,
    ⟨.method "A" "*()", .subclasses, .none⟩]

/-- What is reported about these rules: the method is opened to subclasses only. -/
def fewerReport : Report where
  className := "A"
  bytes := patched file [⟨64, [1]⟩, ⟨84, [4]⟩, ⟨105, [0xb6]⟩, ⟨130, [1]⟩]
  outcomes :=
    [.decided .classItself 0 ⟨1, none⟩, .decided (.field "m") 1 ⟨1, some ⟨.everywhere, .ownClass⟩⟩,
      .decided (.method "m()V") 2 ⟨4, none⟩,
      .rewrote "m" "()V" ⟨.method "A" "*()", .subclasses, .none⟩ [⟨"m()V", 0, 105⟩],
      .decided (.innerClass "A") 4 ⟨1, none⟩]

/-- They can be applied to the file. -/
theorem widen_fewer : (RuleSet.ofRules fewerRules).widen file = .ok fewerReport := by decide +kernel

end Sample

namespace RuleSet

/-- The small class, with the rule for its method added to the others. -/
theorem widen_with_more_sample :
    let r : Rule := .ofEdits (.method "A" "m()V") .everywhere [⟨.final, .set⟩]
    r.AddedTo Sample.fewerRules [] ∧
      (ofRules (Sample.fewerRules ++ [])).widen Sample.file = .ok Sample.fewerReport ∧
      (ofRules (Sample.fewerRules ++ [r])).widen Sample.file = .ok Sample.report ∧
      ∃ c d d', ClassFile.read Sample.file = .ok c ∧
        ClassFile.read Sample.fewerReport.bytes = .ok d ∧
        ClassFile.read Sample.report.bytes = .ok d' ∧
        List.Forall₂ (fun p p' => p.Matches p' ∧ Level.ofFlags p.flags ≤ Level.ofFlags p'.flags)
          d.parts d'.parts ∧
        List.Forall₂ (fun m after => m.StaysPatched c d d' after.1 after.2) c.methods
          (d.methods.zip d'.methods) ∧
        Sample.fewerReport.calls.Sublist Sample.report.calls := by
  intro r
  have hadd : r.AddedTo Sample.fewerRules [] := .newTarget (by decide)
  exact ⟨hadd, Sample.widen_fewer, Sample.widen_file,
    widen_with_more hadd Sample.widen_fewer Sample.widen_file⟩

end RuleSet

end ClassAccess
