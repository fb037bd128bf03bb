import ClassAccess.Proofs.Outcome
import ClassAccess.Proofs.Widening.Visits

/-!
# Applying a rule set to a file

Applying a rule set to a file writes the answers into it and reports what the verdicts are, whether
the class is visited or passed over because no rule applies.

## Main definitions

* `Report.Tells` — what a report says when the answers were written.
* `Report.Contents` — what a report says.

## Main results

* `patch_cases`, `word_mem_patches` — what is written where.
* `exists_answers_of_appliesNowhere` — passing over a class does what a visit does.
* `RuleSet.widen_of_read` — applying a rule set to a file.
* `RuleSet.contents_congr` — rule sets that ask for the same.
-/

set_option autoImplicit false

namespace ClassAccess

section Files

variable {s : RuleSet} {file : List UInt8} {c : ClassFile}

/-- The code of a method fills its place, and so it does when calls in it were rewritten. -/
theorem fills_rewrite (h : ClassFile.read file = .ok c) {m : Method} (hm : m ∈ c.methods)
    (pcs : List Nat) : m.Fills ((c.code? m).map (SelfCall.rewrite pcs)) := by
  rw [Method.Fills]
  cases hspan : m.code with
  | none =>
    rw [ClassFile.code?_of_none hspan]
    rfl
  | some span =>
    obtain ⟨hcode, hlen, -⟩ := ClassFile.code_of_method h hm hspan
    rw [hcode, Option.map_some, Option.map_some, Option.map_some, SelfCall.length_rewrite, hlen]

/-- New code of a method fills its place. -/
theorem fills_of_answerFor (h : ClassFile.read file = .ok c) {m : Method} (hm : m ∈ c.methods)
    {after : Flags} {answer : Flags × Option (List UInt8)} (ha : c.answerFor m after = .ok answer) :
    m.Fills answer.2 := by
  obtain ⟨pcs, -, rfl⟩ := ClassFile.answerFor_eq_ok_iff.1 ha
  exact fills_rewrite h hm pcs

/-- The visitor of a rule set keeps the length of code. -/
theorem keepsLength_visitor (h : ClassFile.read file = .ok c) :
    (Widening.visitor (RuleIndex.ofSet s c.name)).KeepsLength c := by
  intro m hm
  obtain ⟨notes, hgives, -⟩ := exists_gives_visitMethod (s := s) (c := c) m
  exact hgives.always fun answer ha => fills_of_answerFor h hm ha

/-- **What the answers are made of.** -/
theorem ClassFile.answersFor_eq_ok_iff {word : Part → Flags} {a : ClassFile.Answers} :
    c.answersFor word = .ok a ↔
      ∃ methods, c.methods.mapM (fun m => c.answerFor m (word (.method m))) = .ok methods ∧
        a = ⟨word (.whole c), c.fields.map fun f => word (.field f), methods,
          c.innerClasses.map fun i => word (.innerClass i)⟩ := by
  rw [answersFor]
  cases hm : c.methods.mapM fun m => c.answerFor m (word (.method m)) with
  | error e => exact ⟨nofun, nofun⟩
  | ok methods =>
    constructor
    · intro h
      cases h
      exact ⟨methods, rfl, rfl⟩
    · rintro ⟨_, hms, rfl⟩
      cases hms
      rfl

/-- Answers are the same if the flag words are. -/
theorem ClassFile.answersFor_congr {word word' : Part → Flags}
    (h : ∀ p ∈ c.parts, word p = word' p) : c.answersFor word = c.answersFor word' := by
  have hwhole : word (.whole c) = word' (.whole c) := h _ List.mem_cons_self
  have hfields : (c.fields.map fun f => word (.field f)) = c.fields.map fun f => word' (.field f) :=
    List.map_congr_left fun f hf => h _ (c.field_mem_parts hf)
  have hmethods : (c.methods.mapM fun m => c.answerFor m (word (.method m))) =
      c.methods.mapM fun m => c.answerFor m (word' (.method m)) :=
    mapM_congr fun m hm => by rw [h _ (c.method_mem_parts hm)]
  have hinner : (c.innerClasses.map fun i => word (.innerClass i)) =
      c.innerClasses.map fun i => word' (.innerClass i) :=
    List.map_congr_left fun i hi => h _ (c.innerClass_mem_parts hi)
  rw [answersFor, answersFor, hwhole, hfields, hmethods, hinner]

/-- What the answers of a rule set are made of. -/
theorem RuleSet.answers_eq_ok_iff {a : ClassFile.Answers} :
    s.answers c = .ok a ↔
      ∃ methods, c.methods.mapM (methodAnswer s.rules.toList c) = .ok methods ∧
        a = ⟨(verdict s.rules.toList c (.whole c)).flags,
          c.fields.map fun f => (verdict s.rules.toList c (.field f)).flags, methods,
          c.innerClasses.map fun i => (verdict s.rules.toList c (.innerClass i)).flags⟩ :=
  ClassFile.answersFor_eq_ok_iff

/-- Answers fill their places, whatever the flag words are. -/
theorem fills_of_answersFor (h : ClassFile.read file = .ok c) {word : Part → Flags}
    {a : ClassFile.Answers} (ha : c.answersFor word = .ok a) : c.Fills a := by
  obtain ⟨methods, hmethods, rfl⟩ := ClassFile.answersFor_eq_ok_iff.1 ha
  refine ⟨List.length_map _, ?_, List.length_map _⟩
  exact forall₂_of_mapM hmethods fun m hm answer => fills_of_answerFor h hm

/-! ## What is written where -/

/-- A list beside what its members give. -/
theorem zip_map_self {α β : Type} (as : List α) (g : α → β) :
    as.zip (as.map g) = as.map fun a => (a, g a) := by
  induction as with
  | nil => rfl
  | cons a as ih => rw [List.map_cons, List.zip_cons_cons, ih, List.map_cons]

/-- Every member of a list is beside some member of another one that is as long. -/
theorem exists_mem_zip {α β : Type} {as : List α} {bs : List β} (h : bs.length = as.length) {a : α}
    (ha : a ∈ as) : ∃ b, (a, b) ∈ as.zip bs := by
  rw [← List.map_fst_zip (Nat.le_of_eq h.symm), List.mem_map] at ha
  obtain ⟨⟨a', b⟩, hab, rfl⟩ := ha
  exact ⟨b, hab⟩

/-- **What the answers write**: the flag word of a verdict in its place, or code in which calls of a
method to itself are rewritten. -/
theorem patch_cases {a : ClassFile.Answers} (ha : s.answers c = .ok a) {p : Patch}
    (hp : p ∈ c.patches a) :
    (∃ q ∈ c.parts, p = ⟨q.offset, wordBytes (verdict s.rules.toList c q).flags⟩) ∨
      ∃ m ∈ c.methods, ∃ span code pcs, m.code = some span ∧ c.code? m = some code ∧
        openedSites c m (verdict s.rules.toList c (.method m)).flags = .ok pcs ∧
        p = ⟨span.start, SelfCall.rewrite pcs code⟩ := by
  obtain ⟨methods, hmethods, rfl⟩ := RuleSet.answers_eq_ok_iff.1 ha
  simp only [ClassFile.patches, zip_map_self, List.map_map, List.mem_cons, List.mem_append,
    List.mem_map, List.mem_flatMap] at hp
  rcases hp with rfl | ⟨f, hf, rfl⟩ | ⟨⟨m, answer⟩, hm, hp⟩ | ⟨i, hi, rfl⟩
  · exact .inl ⟨.whole c, List.mem_cons_self, rfl⟩
  · exact .inl ⟨.field f, c.field_mem_parts hf, rfl⟩
  · have hmem : m ∈ c.methods := (List.of_mem_zip hm).1
    have hanswer := (List.forall₂_iff_zip.1 (mapM_eq_ok_iff.1 hmethods)).2 hm
    obtain ⟨pcs, hsites, rfl⟩ := ClassFile.answerFor_eq_ok_iff.1 hanswer
    rcases List.mem_append.1 hp with hp | hp
    · refine .inr ⟨m, hmem, ?_⟩
      cases hspan : m.code with
      | none => simp [Method.codePatch?, hspan] at hp
      | some span =>
        cases hcode : c.code? m with
        | none => simp [Method.codePatch?, hspan, hcode] at hp
        | some code =>
          simp only [Method.codePatch?, hspan, hcode, Option.map_some, Option.toList_some,
            List.mem_singleton] at hp
          exact ⟨span, code, pcs, rfl, rfl, hsites, hp⟩
    · rw [List.mem_singleton] at hp
      exact .inl ⟨.method m, c.method_mem_parts hmem, hp⟩
  · exact .inl ⟨.innerClass i, c.innerClass_mem_parts hi, rfl⟩

/-- The answer about a method: its new flag word and code in which its sites were rewritten. -/
theorem ClassFile.exists_answerFor_of_mem {word : Part → Flags} {a : ClassFile.Answers}
    (ha : c.answersFor word = .ok a) {m : Method} (hm : m ∈ c.methods) :
    ∃ pcs, openedSites c m (word (.method m)) = .ok pcs ∧
      (m, word (.method m), (c.code? m).map (SelfCall.rewrite pcs)) ∈ c.methods.zip a.methods := by
  obtain ⟨methods, hmethods, rfl⟩ := answersFor_eq_ok_iff.1 ha
  have hall := mapM_eq_ok_iff.1 hmethods
  obtain ⟨answer, hzip⟩ := exists_mem_zip hall.length_eq.symm hm
  have hanswer := (List.forall₂_iff_zip.1 hall).2 hzip
  obtain ⟨pcs, hsites, rfl⟩ := answerFor_eq_ok_iff.1 hanswer
  exact ⟨pcs, hsites, hzip⟩

/-- The flag word of every verdict is written in its place. -/
theorem word_mem_patches {a : ClassFile.Answers} (ha : s.answers c = .ok a) {q : Part}
    (hq : q ∈ c.parts) :
    ⟨q.offset, wordBytes (verdict s.rules.toList c q).flags⟩ ∈ c.patches a := by
  have hmethod : ∀ m ∈ c.methods, ∃ answer, (m, answer) ∈ c.methods.zip a.methods ∧
      answer.1 = (verdict s.rules.toList c (.method m)).flags := by
    intro m hm
    obtain ⟨pcs, -, hzip⟩ := ClassFile.exists_answerFor_of_mem ha hm
    exact ⟨_, hzip, rfl⟩
  obtain ⟨methods, -, rfl⟩ := RuleSet.answers_eq_ok_iff.1 ha
  simp only [ClassFile.patches, zip_map_self, List.map_map, List.mem_cons, List.mem_append,
    List.mem_map, List.mem_flatMap]
  simp only [ClassFile.parts, List.mem_cons, List.mem_append, List.mem_map] at hq
  rcases hq with rfl | ⟨f, hf, rfl⟩ | ⟨m, hm, rfl⟩ | ⟨i, hi, rfl⟩
  · exact .inl rfl
  · exact .inr (.inl ⟨f, hf, rfl⟩)
  · obtain ⟨answer, hzip, hflags⟩ := hmethod m hm
    rw [← hflags]
    exact .inr (.inr (.inl ⟨_, hzip, List.mem_append_right _ List.mem_cons_self⟩))
  · exact .inr (.inr (.inr ⟨i, hi, rfl⟩))

/-- **The new file has the flag word of every verdict in its place.** -/
theorem word_of_rewritten (h : ClassFile.read file = .ok c) {a : ClassFile.Answers}
    (ha : s.answers c = .ok a) {q : Part} (hq : q ∈ c.parts) :
    (Span.word q.offset).of (c.rewritten a) = wordBytes (verdict s.rules.toList c q).flags :=
  ClassFile.of_rewritten h (fills_of_answersFor h ha) (word_mem_patches ha hq)

/-- **The new file has the code of every method in its place**, with the sites rewritten. -/
theorem code_of_rewritten (h : ClassFile.read file = .ok c) {a : ClassFile.Answers}
    (ha : s.answers c = .ok a) {m : Method} (hm : m ∈ c.methods) {span : Span}
    (hspan : m.code = some span) :
    ∃ pcs, openedSites c m (verdict s.rules.toList c (.method m)).flags = .ok pcs ∧
      span.of (c.rewritten a) = SelfCall.rewrite pcs (span.of file) := by
  obtain ⟨pcs, hsites, hzip⟩ := ClassFile.exists_answerFor_of_mem ha hm
  obtain ⟨hcode, hlen, -⟩ := ClassFile.code_of_method h hm hspan
  rw [hcode, Option.map_some] at hzip
  have hpatch : ⟨span.start, SelfCall.rewrite pcs (span.of file)⟩ ∈ c.patches a := by
    refine List.mem_cons_of_mem _ (List.mem_append_right _ (List.mem_append_left _ ?_))
    refine List.mem_flatMap.2 ⟨_, hzip, List.mem_append_left _ ?_⟩
    simp only [Method.codePatch?, hspan]
    exact Option.mem_toList.2 rfl
  have hof := ClassFile.of_rewritten h (fills_of_answersFor h ha) hpatch
  have hsame : Patch.span ⟨span.start, SelfCall.rewrite pcs (span.of file)⟩ = span := by
    rw [Patch.span, SelfCall.length_rewrite, hlen]
  rw [hsame] at hof
  exact ⟨pcs, hsites, hof⟩

/-! ## Reports -/

/-- A visit to every element gives the file with the answers. -/
theorem RuleSet.exists_gives_accept (h : ClassFile.read file = .ok c) :
    ∃ notes, Gives (c.accept (Widening.visitor (RuleIndex.ofSet s c.name)))
        (s.answers c >>= fun a => .ok (c.rewritten a)) notes ∧
      TellOf notes (c.parts.filterMap (flagChange? s.rules.toList c))
        (c.parts.filterMap (denial? s.rules.toList c))
        (c.methods.flatMap (callsOf s.rules.toList c)) := by
  obtain ⟨notes, hask, htell⟩ := s.exists_gives_ask c
  refine ⟨notes, ?_, htell⟩
  rw [ClassFile.accept_eq h (keepsLength_visitor h), ← List.append_nil notes]
  exact hask.bind fun a _ => .pure (c.rewritten a)

/-- No rule applies to a class if its index is empty and there is no rule for an inner class that it
mentions. -/
theorem RuleSet.appliesNowhere_iff :
    s.appliesNowhere c = true ↔
      (RuleIndex.ofSet s c.name).isEmpty = true ∧
        ∀ i ∈ c.innerClasses, s.classRule? i.name = none := by
  rw [appliesNowhere, Bool.and_eq_true, Bool.not_eq_true', List.any_eq_false]
  simp only [Bool.not_eq_true, Option.isSome_eq_false_iff, Option.isNone_iff_eq_none]

/-- Where no rule applies, nothing is asked for any element. -/
theorem about_of_appliesNowhere (happlies : s.appliesNowhere c = true) {p : Part}
    (hp : p ∈ c.parts) : Request.about s.rules.toList c p = none := by
  obtain ⟨hempty, hinner⟩ := RuleSet.appliesNowhere_iff.1 happlies
  obtain ⟨hclass, hfield, hmethod⟩ := RuleIndex.requests_of_isEmpty hempty
  simp only [ClassFile.parts, List.mem_cons, List.mem_append, List.mem_map] at hp
  rcases hp with rfl | ⟨f, -, rfl⟩ | ⟨m, -, rfl⟩ | ⟨i, hi, rfl⟩
  · exact hclass
  · exact hfield f.name
  · rw [Request.about, hmethod]
    exact ite_self _
  · rw [Request.about, Request.forClass, ← s.classRule?_eq, hinner i hi, Option.map_none]

/-- **Where no rule applies, a visit changes nothing**: the answers say what is there. -/
theorem exists_answers_of_appliesNowhere (h : ClassFile.read file = .ok c)
    (happlies : s.appliesNowhere c = true) :
    ∃ a, s.answers c = .ok a ∧ c.rewritten a = file ∧
      c.parts.filterMap (flagChange? s.rules.toList c) = [] ∧
      c.parts.filterMap (denial? s.rules.toList c) = [] ∧
      c.methods.flatMap (callsOf s.rules.toList c) = [] := by
  have hverdict : ∀ p ∈ c.parts, verdict s.rules.toList c p = ⟨p.flags, none⟩ :=
    fun p hp => verdict_of_unasked (about_of_appliesNowhere happlies hp)
  have hmethod : ∀ m ∈ c.methods, methodAnswer s.rules.toList c m = .ok (m.flags, c.code? m) ∧
      callsOf s.rules.toList c m = [] := fun m hm =>
    methodAnswer_of_unasked (about_of_appliesNowhere happlies (c.method_mem_parts hm))
  have hmethods : c.methods.mapM (methodAnswer s.rules.toList c) =
      .ok (c.methods.map fun m => (m.flags, c.code? m)) := by
    refine mapM_eq_ok_iff.2 (List.forall₂_map_right_iff.2 (List.forall₂_same.2 fun m hm => ?_))
    exact (hmethod m hm).1
  have ha := RuleSet.answers_eq_ok_iff.2 ⟨_, hmethods, rfl⟩
  refine ⟨_, ha, ClassFile.rewritten_eq_of_forall h (fills_of_answersFor h ha) fun p hp => ?_,
    ?_, ?_, ?_⟩
  · obtain ⟨q, hq, rfl⟩ | ⟨m, hm, span, code, pcs, hspan, hcode, hsites, rfl⟩ := patch_cases ha hp
    · rw [hverdict q hq]
      exact (ClassFile.word_of_part h hq).symm
    · rw [hverdict _ (c.method_mem_parts hm), Part.flags,
        openedSites_of_not m.isOpenedBy_flags] at hsites
      cases hsites
      obtain ⟨hcode', hlen, -⟩ := ClassFile.code_of_method h hm hspan
      rw [hcode', Option.some.injEq] at hcode
      subst hcode
      show span.of file = (⟨span.start, (span.of file).length⟩ : Span).of file
      rw [hlen]
  · rw [List.filterMap_eq_nil_iff]
    intro p hp
    rw [flagChange?, hverdict p hp, if_pos rfl]
  · rw [List.filterMap_eq_nil_iff]
    intro p hp
    rw [denial?, hverdict p hp, Option.map_none]
  · rw [List.flatMap_eq_nil_iff]
    exact fun m hm => (hmethod m hm).2

/-- What a report says when the answers `a` about the class `c` were written. -/
structure Report.Tells (r : Report) (rules : List Rule) (c : ClassFile) (a : ClassFile.Answers) :
    Prop where
  /-- The class is named. -/
  className : r.className = c.name
  /-- The new file is the old one with the answers. -/
  bytes : r.bytes = c.rewritten a
  /-- The changes are those of the verdicts, in the order of the file. -/
  changes : r.changes = c.parts.filterMap (flagChange? rules c)
  /-- So are the refusals. -/
  denied : r.denied = c.parts.filterMap (denial? rules c)
  /-- The calls are those of the methods that are opened. -/
  calls : r.calls = c.methods.flatMap (callsOf rules c)

/-- **Applying a rule set to a file** fails where the answers fail, and reports them otherwise. -/
theorem RuleSet.widen_of_read (h : ClassFile.read file = .ok c) :
    match s.answers c with
    | .ok a => ∃ r, s.widen file = .ok r ∧ r.Tells s.rules.toList c a
    | .error e => s.widen file = .error e := by
  cases happlies : s.appliesNowhere c with
  | true =>
    obtain ⟨a, ha, hfile, hchanges, hdenied, hcalls⟩ := exists_answers_of_appliesNowhere h happlies
    rw [ha]
    refine ⟨⟨c.name, c.bytes, []⟩, ?_, rfl, ?_, hchanges.symm, hdenied.symm, hcalls.symm⟩
    · rw [widen, h]
      simp only [pass, happlies, if_true]
    · rw [hfile, ClassFile.bytes_of_read h]
  | false =>
    obtain ⟨notes, hgives, htell⟩ := RuleSet.exists_gives_accept (s := s) h
    have hpass : s.pass c = s.fullPass c := by
      rw [pass, happlies, if_neg Bool.false_ne_true]
    cases ha : s.answers c with
    | error e =>
      rw [ha] at hgives
      have hfull : (s.fullPass c).1 = .error e := hgives []
      show s.widen file = .error e
      rw [widen, h]
      cases hf : s.fullPass c with
      | mk result notes =>
        rw [hf] at hfull
        cases hfull
        simp only [hpass, hf]
    | ok a =>
      rw [ha] at hgives
      have hfull : s.fullPass c = (.ok (c.rewritten a), notes) := hgives []
      refine ⟨⟨c.name, c.rewritten a, notes⟩, ?_, rfl, rfl, htell.changes_eq, htell.denied_eq,
        htell.calls_eq⟩
      rw [widen, h]
      simp only [hpass, hfull]

/-- **Where applying a rule set succeeds**, the file is a class, there are answers and the report
tells of them. -/
theorem RuleSet.exists_answers_of_widen {r : Report} (h : s.widen file = .ok r) :
    ∃ c a, ClassFile.read file = .ok c ∧ s.answers c = .ok a ∧ r.Tells s.rules.toList c a := by
  cases hread : ClassFile.read file with
  | error e =>
    rw [widen, hread] at h
    cases h
  | ok c =>
    have hwiden := RuleSet.widen_of_read (s := s) hread
    cases ha : s.answers c with
    | error e =>
      rw [ha] at hwiden
      rw [hwiden] at h
      cases h
    | ok a =>
      rw [ha] at hwiden
      obtain ⟨r', hr', htells⟩ := hwiden
      rw [hr'] at h
      cases h
      exact ⟨c, a, rfl, ha, htells⟩

/-! ## Rule sets that ask for the same -/

/-- What a report says. Notes that tell of no change, no refusal and no rewritten call are left
out. -/
structure Report.Contents where
  /-- The name of the class. -/
  className : String
  /-- The new file. -/
  bytes : List UInt8
  /-- The flag words that changed. -/
  changes : List FlagChange
  /-- The refusals. -/
  denied : List Denial
  /-- The rewritten calls. -/
  calls : List RewrittenCall
deriving DecidableEq

/-- What the report says. -/
def Report.contents (r : Report) : Report.Contents :=
  ⟨r.className, r.bytes, r.changes, r.denied, r.calls⟩

/-- **Rule sets that ask for the same about every element of a class** give reports that say the
same, or the same error. -/
theorem RuleSet.contents_congr {t : RuleSet} (h : ClassFile.read file = .ok c)
    (habout : ∀ p ∈ c.parts, Request.about s.rules.toList c p = Request.about t.rules.toList c p) :
    (s.widen file).map Report.contents = (t.widen file).map Report.contents := by
  have hverdict : ∀ p ∈ c.parts, verdict s.rules.toList c p = verdict t.rules.toList c p := by
    intro p hp
    rw [verdict, verdict, habout p hp]
  have hanswers : s.answers c = t.answers c :=
    ClassFile.answersFor_congr fun p hp => by rw [hverdict p hp]
  have hchanges : c.parts.filterMap (flagChange? s.rules.toList c) =
      c.parts.filterMap (flagChange? t.rules.toList c) :=
    List.filterMap_congr fun p hp => by rw [flagChange?, flagChange?, hverdict p hp]
  have hdenied : c.parts.filterMap (denial? s.rules.toList c) =
      c.parts.filterMap (denial? t.rules.toList c) :=
    List.filterMap_congr fun p hp => by rw [denial?, denial?, hverdict p hp]
  have hcalls : c.methods.flatMap (callsOf s.rules.toList c) =
      c.methods.flatMap (callsOf t.rules.toList c) :=
    List.flatMap_congr fun m hm => by rw [callsOf, callsOf, hverdict _ (c.method_mem_parts hm)]
  have hs := widen_of_read (s := s) h
  have ht := widen_of_read (s := t) h
  rw [hanswers] at hs
  cases ha : t.answers c with
  | error e =>
    rw [ha] at hs ht
    rw [hs, ht]
  | ok a =>
    rw [ha] at hs ht
    obtain ⟨r, hr, htells⟩ := hs
    obtain ⟨r', hr', htells'⟩ := ht
    rw [hr, hr']
    show Except.ok r.contents = Except.ok r'.contents
    rw [Report.contents, Report.contents, htells.className, htells.bytes, htells.changes,
      htells.denied, htells.calls, htells'.className, htells'.bytes, htells'.changes,
      htells'.denied, htells'.calls, hchanges, hdenied, hcalls]

end Files

end ClassAccess
