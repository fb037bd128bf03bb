import ClassAccess.Proofs.ClassFile.Outline
import ClassAccess.Proofs.Widening.InTurn
import ClassAccess.Proofs.Widening.OpenedMethods

/-!
# Rule sets in turn are one pass

Applying rule sets in turn comes to the same as asking for everything at once. The requests of all
sets for an element are put together, and the file is written a single time. It can be written
exactly if every set can be applied to what the sets before it gave.

## Main definitions

* `RuleSet.fileInTurn?` — the file after rule sets were applied in turn.
* `Request.inTurn` — what rule sets in turn ask for an element.
* `RuleSet.wordInTurn` — what becomes of a flag word under rule sets in turn.

## Main results

* `answersFor_updated` — what remains to be written after one rule set was applied.
* `RuleSet.fileInTurn?_of_read` — rule sets in turn are one pass.
* `RuleSet.fileInTurn?_congr` — rule sets that ask for the same in turn do the same.
-/

set_option autoImplicit false

namespace ClassAccess

/-! ## Verdicts and outlines -/

/-- What is asked for an element depends on the name of its class and its outline only. -/
theorem about_of_outline (rules : List Rule) {c c' : ClassFile} {p p' : Part}
    (hc : c'.name = c.name) (hp : p'.outline = p.outline) :
    Request.about rules c' p' = Request.about rules c p := by
  have houtline : ∀ q : Part, Request.about rules c' q.outline = Request.about rules c' q := by
    intro q
    cases q <;> rfl
  rw [← houtline, hp, houtline]
  cases p <;> simp only [Request.about, hc]

/-- Whether an element is a constructor depends on its outline only. -/
theorem isConstructor_of_outline {p p' : Part} (hp : p'.outline = p.outline) :
    p'.isConstructor = p.isConstructor := by
  have houtline : ∀ q : Part, q.outline.isConstructor = q.isConstructor := by
    intro q
    cases q <;> rfl
  rw [← houtline, hp, houtline]

/-! ## One step -/

section Step

variable {s : RuleSet} {file : List UInt8} {c : ClassFile} {a : ClassFile.Answers}

/-- What is left to open of a method whose flag word became `w`, if that did not make it private. -/
theorem Method.isOpenedBy_withFlags {m : Method} {w v : Flags}
    (hw : w.meets Flags.privateBit = true → m.flags.meets Flags.privateBit = true) :
    (m.withFlags w).isOpenedBy v = (m.isOpenedBy v && !m.isOpenedBy w) := by
  simp only [isOpenedBy, Widening.isOpened, withFlags]
  generalize m.flags.meets Flags.privateBit = before at hw ⊢
  generalize w.meets Flags.privateBit = now at hw ⊢
  grind

/-- A method that is opened by `w` is opened by a later flag word that does not make it private
again. -/
theorem Method.isOpenedBy_of_private {m : Method} {w v : Flags} (h : m.isOpenedBy w = true)
    (hv : v.meets Flags.privateBit = true → w.meets Flags.privateBit = true) :
    m.isOpenedBy v = true := by
  simp only [isOpenedBy, Widening.isOpened] at h ⊢
  grind

/-- The sites of a method do not depend on the flag word that opens it. -/
theorem openedSites_eq {m : Method} {w v : Flags} (hw : m.isOpenedBy w = true)
    (hv : m.isOpenedBy v = true) : openedSites c m w = openedSites c m v := by
  simp only [openedSites, hw, hv]

/-- **What remains to be written for a method** after one rule set was applied: a method that was
opened is not opened again, and the code of any other is still the old one. -/
theorem answerFor_updated (h : ClassFile.read file = .ok c) (ha : s.answers c = .ok a) {m : Method}
    (hm : m ∈ c.methods) {v : Flags} (hv : v.meets Flags.privateBit = true →
      (verdict s.rules.toList c (.method m)).flags.meets Flags.privateBit = true) :
    (c.updated a).answerFor (m.withFlags (verdict s.rules.toList c (.method m)).flags) v =
      c.answerFor m v := by
  obtain ⟨pcs, hsites, -⟩ := ClassFile.exists_answerFor_of_mem ha hm
  have hcode := code?_updated h ha hm hsites (verdict s.rules.toList c (.method m)).flags
  have hprivate : (verdict s.rules.toList c (.method m)).flags.meets Flags.privateBit = true →
      m.flags.meets Flags.privateBit = true := Request.private_of_ruling _ _ _
  have hleft := Method.isOpenedBy_withFlags (v := v) hprivate
  generalize (verdict s.rules.toList c (.method m)).flags = w at *
  cases hw : m.isOpenedBy w with
  | true =>
    -- the calls are rewritten by now, and they are those that would have been rewritten for `v`
    have hopened : m.isOpenedBy v = true := Method.isOpenedBy_of_private hw hv
    have hnot : (m.withFlags w).isOpenedBy v = false := by
      rw [hleft, hw, Bool.not_true, Bool.and_false]
    have hsites' : openedSites c m v = .ok pcs := by
      rw [← hsites, openedSites_eq hw hopened]
    rw [ClassFile.answerFor, ClassFile.answerFor, openedSites_of_not hnot, hsites', hcode]
    simp only [map_rewrite_nil]
  | false =>
    -- the code is still the old one, and the method is there to be opened if it ever was
    have hsame : (m.withFlags w).isOpenedBy v = m.isOpenedBy v := by
      rw [hleft, hw, Bool.not_false, Bool.and_true]
    rw [openedSites_of_not hw, Except.ok.injEq] at hsites
    rw [← hsites, map_rewrite_nil] at hcode
    have hsites' : openedSites (c.updated a) (m.withFlags w) v = openedSites c m v := by
      rw [openedSites, openedSites, hcode, hsame]
      rfl
    rw [ClassFile.answerFor, ClassFile.answerFor, hsites', hcode]
    rfl

/-- **What remains to be written after one rule set was applied** is what would have been written in
the first place, if later flag words make nothing private. -/
theorem answersFor_updated (h : ClassFile.read file = .ok c) (ha : s.answers c = .ok a)
    {word word' : Part → Flags}
    (hword : ∀ p p', p'.outline = p.outline → p'.flags = (verdict s.rules.toList c p).flags →
      word' p' = word p)
    (hprivate : ∀ m, (word (.method m)).meets Flags.privateBit = true →
      (verdict s.rules.toList c (.method m)).flags.meets Flags.privateBit = true) :
    (c.updated a).answersFor word' = c.answersFor word := by
  have hmethods : (c.updated a).methods.mapM
      (fun m => (c.updated a).answerFor m (word' (.method m))) =
        c.methods.mapM fun m => c.answerFor m (word (.method m)) := by
    rw [methods_updated ha, List.mapM_map]
    refine mapM_congr fun m hm => ?_
    have hw := hword (.method m)
      (.method (m.withFlags (verdict s.rules.toList c (.method m)).flags)) rfl rfl
    rw [← answerFor_updated h ha hm (hprivate m), ← hw]
    rfl
  have hwhole : word' (.whole (c.updated a)) = word (.whole c) := by
    refine hword (.whole c) _ ?_ ?_
    · exact congrArg Part.whole (ClassFile.outline_updated (fills_of_answersFor h ha))
    · exact flags_updated ha
  have hfields : ((c.updated a).fields.map fun f => word' (.field f)) =
      c.fields.map fun f => word (.field f) := by
    rw [fields_updated ha, List.map_map]
    exact List.map_congr_left fun f _ => hword (.field f) _ rfl rfl
  have hinner : ((c.updated a).innerClasses.map fun i => word' (.innerClass i)) =
      c.innerClasses.map fun i => word (.innerClass i) := by
    rw [innerClasses_updated ha, List.map_map]
    exact List.map_congr_left fun i _ => hword (.innerClass i) _ rfl rfl
  rw [ClassFile.answersFor, ClassFile.answersFor, hmethods, hwhole, hfields, hinner]

/-- If something can be written after one rule set was applied, the rule set can be applied. -/
theorem exists_answers_of_answersFor {word : Part → Flags} {b : ClassFile.Answers}
    (hb : c.answersFor word = .ok b)
    (hprivate : ∀ m, (word (.method m)).meets Flags.privateBit = true →
      (verdict s.rules.toList c (.method m)).flags.meets Flags.privateBit = true) :
    ∃ a, s.answers c = .ok a := by
  have hmethods : ∀ m ∈ c.methods, ∃ answer, methodAnswer s.rules.toList c m = .ok answer := by
    intro m hm
    cases hw : m.isOpenedBy (verdict s.rules.toList c (.method m)).flags with
    | false => exact ⟨_, (methodAnswer_of_not hw).1⟩
    | true =>
      obtain ⟨pcs, hsites, -⟩ := ClassFile.exists_answerFor_of_mem hb hm
      rw [← openedSites_eq hw (Method.isOpenedBy_of_private hw (hprivate m))] at hsites
      exact ⟨_, ClassFile.answerFor_eq_ok_iff.2 ⟨pcs, hsites, rfl⟩⟩
  obtain ⟨methods, hmethods⟩ := exists_mapM_eq_ok_iff.2 hmethods
  exact ⟨_, RuleSet.answers_eq_ok_iff.2 ⟨methods, hmethods, rfl⟩⟩

end Step

/-! ## Runs -/

/-- What rule sets in turn ask for an element of the class `c`: what the later ones ask for is put
over what the earlier ones do. -/
def Request.inTurn (sets : List RuleSet) (c : ClassFile) (p : Part) : Option Request :=
  sets.foldr (fun s later => both (about s.rules.toList c p) later) none

namespace RuleSet

/-- What becomes of the flag word of an element of the class `c` under rule sets in turn. -/
def wordInTurn (sets : List RuleSet) (c : ClassFile) (p : Part) : Flags :=
  (Request.ruling p.isConstructor (Request.inTurn sets c p) p.flags).flags

/-- The file after rule sets were applied in turn, if they can be: the one of the last report, or
the file itself. -/
def fileInTurn? (sets : List RuleSet) (file : List UInt8) : Option (List UInt8) :=
  (widenInTurn sets file).toOption.map fun reports => (reports.map Report.bytes).getLastD file

variable {s : RuleSet} {sets : List RuleSet} {file : List UInt8} {c : ClassFile}

/-- The rule sets behind the first one are applied to what the first one gives. -/
theorem fileInTurn?_cons (s : RuleSet) (sets : List RuleSet) (file : List UInt8) :
    fileInTurn? (s :: sets) file =
      (s.widen file).toOption.bind fun r => fileInTurn? sets r.bytes := by
  rw [fileInTurn?, widenInTurn]
  cases s.widen file with
  | error e => rfl
  | ok r =>
    show Option.map _ (widenInTurn sets r.bytes >>= fun reports => .ok (r :: reports)).toOption =
      fileInTurn? sets r.bytes
    rw [fileInTurn?]
    cases widenInTurn sets r.bytes with
    | error e => rfl
    | ok reports =>
      show some ((r.bytes :: reports.map Report.bytes).getLastD file) = _
      rw [List.getLastD_cons]
      rfl

/-- The file after one rule set. -/
theorem fileInTurn?_singleton (s : RuleSet) (file : List UInt8) :
    fileInTurn? [s] file = (s.widen file).toOption.map Report.bytes := by
  rw [fileInTurn?_cons]
  cases s.widen file <;> rfl

/-- A flag word under rule sets in turn is the ruling of the later ones on the verdict of the
first. -/
theorem wordInTurn_cons (s : RuleSet) (sets : List RuleSet) (c : ClassFile) (p : Part) :
    wordInTurn (s :: sets) c p = (Request.ruling p.isConstructor (Request.inTurn sets c p)
      (verdict s.rules.toList c p).flags).flags := by
  have hcons : Request.inTurn (s :: sets) c p =
      Request.both (Request.about s.rules.toList c p) (Request.inTurn sets c p) := rfl
  rw [wordInTurn, hcons, Request.ruling_both, verdict]

/-- A flag word under rule sets in turn is the one that the later ones make of what the first one
gave. -/
theorem wordInTurn_of_outline {c' : ClassFile} (hc : c'.name = c.name) {p p' : Part}
    (hp : p'.outline = p.outline) (hflags : p'.flags = (verdict s.rules.toList c p).flags) :
    wordInTurn sets c' p' = wordInTurn (s :: sets) c p := by
  have hturn : Request.inTurn sets c' p' = Request.inTurn sets c p := by
    rw [Request.inTurn, Request.inTurn]
    refine List.foldr_ext _ _ none fun t _ later => ?_
    rw [about_of_outline t.rules.toList hc hp]
  rw [wordInTurn_cons, wordInTurn, hturn, isConstructor_of_outline hp, hflags]

/-- Later rule sets make nothing private. -/
theorem private_of_wordInTurn {p : Part}
    (h : (wordInTurn (s :: sets) c p).meets Flags.privateBit = true) :
    (verdict s.rules.toList c p).flags.meets Flags.privateBit = true := by
  rw [wordInTurn_cons] at h
  exact Request.private_of_ruling _ _ _ h

/-- Without rule sets nothing is rewritten. -/
theorem exists_answersFor_nil (h : ClassFile.read file = .ok c) :
    ∃ a, c.answersFor (wordInTurn [] c) = .ok a ∧ c.rewritten a = file := by
  have hclass : ∀ n, (ofRules []).classRule? n = none := fun n => rfl
  have hindex : ∀ n, (RuleIndex.ofSet (ofRules []) n).isEmpty = true := fun n => rfl
  have happlies : (ofRules []).appliesNowhere c = true := by
    simp [appliesNowhere, hclass, hindex]
  have hword : wordInTurn [] c = fun p => (verdict (ofRules []).rules.toList c p).flags := by
    funext p
    have habout : Request.about (ofRules []).rules.toList c p = none := by
      cases p with
      | method m => exact ite_self _
      | _ => rfl
    rw [verdict_of_unasked habout]
    rfl
  obtain ⟨a, ha, hfile, -⟩ := exists_answers_of_appliesNowhere h happlies
  rw [hword]
  exact ⟨a, ha, hfile⟩

/-- **Rule sets in turn are one pass** over a class: they can be applied if the calls that have to
be rewritten in the end can be, and give the file that is written a single time.

**Proof sketch.** Induction on the rule sets. After the first one, the class is the one with its
answers, and what remains to be written there is what would have been written in the first place; of
the two rewritings the later one counts. If the first one cannot be applied, a call leads nowhere in
a method that it opens, and that method is open in the end. -/
theorem fileInTurn?_of_read (sets : List RuleSet) (h : ClassFile.read file = .ok c) :
    fileInTurn? sets file = (c.answersFor (wordInTurn sets c)).toOption.map c.rewritten := by
  induction sets generalizing file c with
  | nil =>
    obtain ⟨a, ha, hfile⟩ := exists_answersFor_nil h
    rw [ha]
    exact congrArg some hfile.symm
  | cons s sets ih =>
    have hwiden := widen_of_read (s := s) h
    rw [fileInTurn?_cons]
    cases ha : s.answers c with
    | error e =>
      rw [ha] at hwiden
      cases hb : c.answersFor (wordInTurn (s :: sets) c) with
      | error e' =>
        rw [hwiden]
        rfl
      | ok b =>
        obtain ⟨a, ha'⟩ := exists_answers_of_answersFor hb fun m => private_of_wordInTurn
        rw [ha] at ha'
        cases ha'
    | ok a =>
      rw [ha] at hwiden
      obtain ⟨r, hr, htells⟩ := hwiden
      have hread : ClassFile.read r.bytes = .ok (c.updated a) := by
        rw [htells.bytes]
        exact ClassFile.read_rewritten h (fits_of_answersFor h ha)
      have hremains : (c.updated a).answersFor (wordInTurn sets (c.updated a)) =
          c.answersFor (wordInTurn (s :: sets) c) :=
        answersFor_updated h ha (fun p p' => wordInTurn_of_outline rfl)
          fun m => private_of_wordInTurn
      rw [hr]
      show fileInTurn? sets r.bytes = _
      rw [ih hread, hremains]
      cases hb : c.answersFor (wordInTurn (s :: sets) c) with
      | error e => rfl
      | ok b =>
        exact congrArg some
          (ClassFile.rewritten_updated h (fills_of_answersFor h ha) (fills_of_answersFor h hb))

/-- **Rule sets that ask for the same in turn do the same.** -/
theorem fileInTurn?_congr {t : RuleSet} {sets' : List RuleSet}
    (h : ∀ c p, Request.inTurn (s :: sets) c p = Request.inTurn (t :: sets') c p) :
    fileInTurn? (s :: sets) file = fileInTurn? (t :: sets') file := by
  cases hread : ClassFile.read file with
  | error e =>
    have hfails : ∀ u : RuleSet, u.widen file = .error ⟨none, .classFile e⟩ := by
      intro u
      rw [widen, hread]
    rw [fileInTurn?_cons, fileInTurn?_cons, hfails, hfails]
    rfl
  | ok c =>
    have hword : wordInTurn (s :: sets) c = wordInTurn (t :: sets') c := by
      funext p
      rw [wordInTurn, wordInTurn, h]
    rw [fileInTurn?_of_read _ hread, fileInTurn?_of_read _ hread, hword]

end RuleSet

end ClassAccess
