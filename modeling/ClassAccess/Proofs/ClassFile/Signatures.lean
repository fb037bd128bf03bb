import ClassAccess.Proofs.ClassFile.DescriptorTexts

/-!
# Names followed by descriptors

The signature of a method is its name, directly followed by its descriptor. Nothing stands between
the two, and a parenthesis may stand in the name of a method as well as in the name of a class that
its descriptor mentions. So a text can be cut in more than one way, but only at a parenthesis in the
name of a class, and only if what follows it happens to go on like a descriptor.

## Main definitions

* `objectText` — the text of a class as the type of a parameter or a result.
* `CutLater` — the ways to cut a signature later than at its descriptor.

## Main results

* `exists_of_flatten` — where something stands in texts in a row.
* `exists_letters` — how a descriptor goes on that starts within the name of a class.
* `cutLater_of_append` — a descriptor that ends in another one.
* `append_eq_append_iff_cut` — when two names and descriptors make the same signature.

## Implementation notes

Whether a text is a descriptor is asked of the grammar, not of the reader. The reader says how one
text is divided; here the end of a text is to be divided a second time, from the middle of one of
its types.
-/

set_option autoImplicit false

namespace ClassAccess

/-! ## Places in texts -/

section Places

variable {α : Type} {front back as bs : List α} {x : α}

/-- What stands in two texts in a row stands in the first one or in the second one. -/
theorem cases_of_append_eq (h : as ++ bs = front ++ x :: back) :
    (∃ rest, as = front ++ x :: rest ∧ back = rest ++ bs) ∨
      ∃ before, front = as ++ before ∧ bs = before ++ x :: back := by
  obtain ⟨before, hfront, hbs⟩ | ⟨rest, has, hback⟩ := List.append_eq_append_iff.1 h
  · exact .inr ⟨before, hfront, hbs⟩
  · cases rest with
    | nil =>
      refine .inr ⟨[], ?_, hback.symm⟩
      rw [has, List.append_nil, List.append_nil]
    | cons y rest =>
      rw [List.cons_append, List.cons.injEq] at hback
      obtain ⟨rfl, hback⟩ := hback
      exact .inl ⟨rest, has, hback⟩

/-- Texts that go on after the first `x` in them are cut there in one way only. -/
theorem eq_of_first (has : x ∉ as) (hfront : x ∉ front) (h : as ++ x :: bs = front ++ x :: back) :
    as = front ∧ bs = back := by
  obtain ⟨rest, has', -⟩ | ⟨before, hfront', hbs⟩ := cases_of_append_eq h
  · rw [has'] at has
    exact absurd (List.mem_append_right _ List.mem_cons_self) has
  · cases before with
    | nil =>
      rw [List.nil_append, List.cons.injEq] at hbs
      rw [hfront', List.append_nil]
      exact ⟨rfl, hbs.2⟩
    | cons y before =>
      rw [List.cons_append, List.cons.injEq] at hbs
      rw [hfront', ← hbs.1] at hfront
      exact absurd (List.mem_append_right _ List.mem_cons_self) hfront

/-- **What stands in texts in a row stands in one of them.** -/
theorem exists_of_flatten {texts : List (List α)} (h : texts.flatten = front ++ x :: back) :
    ∃ before p q after, texts = before ++ (p ++ x :: q) :: after ∧ front = before.flatten ++ p ∧
      back = q ++ after.flatten := by
  induction texts generalizing front with
  | nil => simp at h
  | cons text texts ih =>
    rw [List.flatten_cons] at h
    obtain ⟨rest, rfl, rfl⟩ | ⟨front', rfl, htexts⟩ := cases_of_append_eq h
    · exact ⟨[], front, rest, texts, rfl, rfl, rfl⟩
    · obtain ⟨before, p, q, after, rfl, rfl, rfl⟩ := ih htexts
      exact ⟨text :: before, p, q, after, rfl, (List.append_assoc ..).symm, rfl⟩

end Places

/-! ## Names of classes in descriptors -/

/-- The text of the class `name`, or of arrays of its objects, as the type of a parameter or a
result. -/
def objectText (dimensions : Nat) (name : List Char) : List Char :=
  List.replicate dimensions '[' ++ ('L' :: name ++ [';'])

/-- The letters stand for base types. -/
def AreLetters (letters : List Char) : Prop :=
  ∀ c ∈ letters, c ∈ ['B', 'C', 'D', 'F', 'I', 'J', 'S', 'Z']

/-- The characters may stand in the name of a class. -/
def AreNameChars (chars : List Char) : Prop :=
  ∀ c ∈ chars, c ≠ ';' ∧ c ≠ '.' ∧ c ≠ '['

/-- **A parenthesis in the text of a type stands in the name of a class.** -/
theorem IsFieldText.exists_of_parenthesis {front back : List Char}
    (h : IsFieldText (front ++ '(' :: back)) :
    ∃ k u v, front = List.replicate k '[' ++ 'L' :: u ∧ back = v ++ [';'] ∧ AreNameChars v := by
  obtain ⟨k, element, -, helement, htext⟩ := h
  obtain ⟨rest, hbrackets, -⟩ | ⟨front', rfl, hrest⟩ := cases_of_append_eq htext.symm
  · -- it is no bracket
    have hmem : '(' ∈ List.replicate k '[' := by
      rw [hbrackets]
      exact List.mem_append_right _ List.mem_cons_self
    have heq := List.eq_of_mem_replicate hmem
    simp at heq
  · cases helement with
    | @base c letter =>
      -- it is no letter
      have hmem : '(' ∈ [c] := by
        rw [hrest]
        exact List.mem_append_right _ List.mem_cons_self
      rw [← List.mem_singleton.1 hmem] at letter
      simp at letter
    | @object name nonempty chars =>
      cases front' with
      | nil => simp at hrest
      | cons y u =>
        rw [List.cons_append, List.cons_append, List.cons.injEq] at hrest
        obtain ⟨rfl, hrest⟩ := hrest
        obtain ⟨v, rfl, rfl⟩ | ⟨before, -, hend⟩ := cases_of_append_eq hrest
        · refine ⟨k, u, v, rfl, rfl, fun c hc => chars c ?_⟩
          exact List.mem_append_right _ (List.mem_cons_of_mem _ hc)
        · cases before <;> simp at hend

/-- **A type that starts within the name of a class** is a letter of that name, or it is a class
whose name is all that is left of it. -/
theorem IsFieldText.cases_of_name {p more v rest : List Char} (hp : IsFieldText p)
    (hv : AreNameChars v) (h : p ++ more = v ++ ';' :: rest) :
    (∃ c v', AreLetters [c] ∧ v = c :: v' ∧ more = v' ++ ';' :: rest) ∨
      ∃ z, z ≠ [] ∧ v = 'L' :: z ∧ more = rest := by
  obtain ⟨k, element, -, helement, rfl⟩ := hp
  cases v with
  | nil =>
    -- no type starts with a semicolon
    cases k with
    | zero =>
      cases helement with
      | base letter =>
        simp only [List.replicate_zero, List.nil_append, List.cons_append, List.cons.injEq] at h
        rw [h.1] at letter
        simp at letter
      | object => simp at h
    | succ k => simp [List.replicate_succ] at h
  | cons c v =>
    obtain ⟨hc, htail⟩ := List.forall_mem_cons.1 hv
    cases k with
    | zero =>
      cases helement with
      | base letter =>
        simp only [List.replicate_zero, List.nil_append, List.cons_append, List.cons.injEq] at h
        obtain ⟨rfl, hmore⟩ := h
        exact .inl ⟨_, v, List.forall_mem_singleton.2 letter, rfl, hmore⟩
      | @object name nonempty chars =>
        simp only [List.replicate_zero, List.nil_append, List.cons_append, List.append_assoc,
          List.cons.injEq] at h
        obtain ⟨rfl, hname⟩ := h
        have hname' : ';' ∉ name := fun hmem => (chars _ hmem).1 rfl
        have hv' : ';' ∉ v := fun hmem => (htail _ hmem).1 rfl
        obtain ⟨rfl, rfl⟩ := eq_of_first hname' hv' hname
        exact .inr ⟨name, nonempty, rfl, rfl⟩
    | succ k =>
      -- no bracket stands in the name
      simp only [List.replicate_succ, List.cons_append, List.cons.injEq] at h
      exact absurd h.1.symm hc.2.2

/-- **How a descriptor goes on that starts within the name of a class**: with letters for base types
and the name of another class, as a parameter or as the result. Only the second one ends with that
name.

**Proof sketch.** Induction on the types of the parameters. As long as these are letters they are
taken off the name; a class uses up the rest of it. If the parameters end within the name, the
result is a class that uses up the rest. -/
theorem exists_letters {parameters : List (List Char)} {result v rest : List Char}
    (hparameters : ∀ p ∈ parameters, IsFieldText p) (hresult : result = ['V'] ∨ IsFieldText result)
    (hv : AreNameChars v) (h : parameters.flatten ++ ')' :: result = v ++ ';' :: rest) :
    (∃ letters z, AreLetters letters ∧ z ≠ [] ∧ v = letters ++ 'L' :: z ∧ rest ≠ []) ∨
      ∃ letters z, AreLetters letters ∧ z ≠ [] ∧ v = letters ++ ')' :: 'L' :: z ∧ rest = [] := by
  induction parameters generalizing v with
  | nil =>
    cases v with
    | nil => simp at h
    | cons c v =>
      simp only [List.flatten_nil, List.nil_append, List.cons_append, List.cons.injEq] at h
      obtain ⟨rfl, hend⟩ := h
      rcases hresult with rfl | hfield
      · cases v <;> simp at hend
      · rw [← List.append_nil result] at hend
        obtain ⟨c, v', -, rfl, hnone⟩ | ⟨z, hz, rfl, hrest⟩ :=
          hfield.cases_of_name (List.forall_mem_cons.1 hv).2 hend
        · simp at hnone
        · exact .inr ⟨[], z, List.forall_mem_nil _, hz, rfl, hrest.symm⟩
  | cons p parameters ih =>
    obtain ⟨hp, hparameters⟩ := List.forall_mem_cons.1 hparameters
    rw [List.flatten_cons, List.append_assoc] at h
    obtain ⟨c, v', hc, rfl, hmore⟩ | ⟨z, hz, rfl, hmore⟩ := hp.cases_of_name hv h
    · have hcons : ∀ letters, AreLetters letters → AreLetters (c :: letters) :=
        fun _ hletters => List.forall_mem_cons.2 ⟨List.forall_mem_singleton.1 hc, hletters⟩
      obtain ⟨letters, z, hletters, hz, rfl, hrest⟩ | ⟨letters, z, hletters, hz, rfl, hrest⟩ :=
        ih hparameters (List.forall_mem_cons.1 hv).2 hmore
      · exact .inl ⟨c :: letters, z, hcons letters hletters, hz, rfl, hrest⟩
      · exact .inr ⟨c :: letters, z, hcons letters hletters, hz, rfl, hrest⟩
    · refine .inl ⟨[], z, List.forall_mem_nil _, hz, rfl, ?_⟩
      rw [← hmore]
      simp

/-! ## Signatures -/

/-- The name `n'` and the descriptor `d'` cut the signature `n ++ d` later than at `d`, within the
name of a class that `d` mentions: at a parenthesis behind which that name goes on like a
descriptor. -/
inductive CutLater (n d n' d' : List Char) : Prop
  /-- The class is the type of a parameter. Behind the parenthesis, letters for base types and a
  class follow, and the rest of the descriptor. -/
  | inParameter {before after : List (List Char)} {result : List Char} {k : Nat}
      {u letters z : List Char}
      (divided : IsMethodText d
        (before ++ objectText k (u ++ '(' :: letters ++ 'L' :: z) :: after) result)
      (areLetters : AreLetters letters) (nonempty : z ≠ [])
      (name_eq : n' = n ++ '(' :: before.flatten ++ List.replicate k '[' ++ 'L' :: u)
      (descriptor_eq : d' =
        '(' :: letters ++ objectText 0 z ++ after.flatten ++ ')' :: result)
  /-- The class is the type of the result. Behind the parenthesis, letters for base types follow,
  another parenthesis and a class. -/
  | inResult {parameters : List (List Char)} {k : Nat} {u letters z : List Char}
      (divided : IsMethodText d parameters (objectText k (u ++ '(' :: letters ++ ')' :: 'L' :: z)))
      (areLetters : AreLetters letters) (nonempty : z ≠ [])
      (name_eq : n' = n ++ '(' :: parameters.flatten ++ ')' :: List.replicate k '[' ++ 'L' :: u)
      (descriptor_eq : d' = '(' :: letters ++ ')' :: objectText 0 z)

/-- Whatever cuts a signature later makes the same signature. -/
theorem CutLater.append_eq {n d n' d' : List Char} (h : CutLater n d n' d') :
    n ++ d = n' ++ d' := by
  cases h with
  | inParameter divided _ _ name_eq descriptor_eq =>
    rw [divided.text_eq, name_eq, descriptor_eq]
    simp [objectText]
  | inResult divided _ _ name_eq descriptor_eq =>
    rw [divided.text_eq, name_eq, descriptor_eq]
    simp [objectText]

/-- The name of whatever cuts a signature later has a parenthesis in it. -/
theorem CutLater.parenthesis_mem {n d n' d' : List Char} (h : CutLater n d n' d') : '(' ∈ n' := by
  cases h with
  | inParameter _ _ _ name_eq _ =>
    rw [name_eq]
    simp
  | inResult _ _ _ name_eq _ =>
    rw [name_eq]
    simp

/-- The grammar divides every descriptor. -/
theorem exists_isMethodText {d : List Char} (h : isMethodDescriptor d = true) :
    ∃ parameters result, IsMethodText d parameters result := by
  obtain ⟨t, hlegal, rfl⟩ := isMethodDescriptor_iff.1 h
  exact ⟨_, _, isMethodText_iff.2 ⟨t, hlegal, rfl, rfl, rfl⟩⟩

section CutLater

variable {n d x d' rest front result result' : List Char}
  {parameters parameters' : List (List Char)}

/-- A descriptor that starts at a parenthesis in the parameters of another one cuts the signature
later. -/
theorem cutLater_of_parameters (hd : IsMethodText d parameters result)
    (hd' : IsMethodText d' parameters' result')
    (hflatten : parameters.flatten = front ++ '(' :: rest)
    (hrest : parameters'.flatten ++ ')' :: result' = rest ++ ')' :: result) :
    CutLater n d (n ++ '(' :: front) d' := by
  -- the parenthesis stands in one of the parameters, hence in the name of a class
  obtain ⟨before, p, q, after, rfl, rfl, rfl⟩ := exists_of_flatten hflatten
  have hp := hd.areFields (p ++ '(' :: q) (List.mem_append_right _ List.mem_cons_self)
  obtain ⟨k, u, v, rfl, rfl, hv⟩ := hp.exists_of_parenthesis
  rw [List.append_assoc, List.append_assoc] at hrest
  -- more than that name follows, so that it ends within the parameters of the other descriptor, too
  obtain ⟨letters, z, hletters, hz, rfl, -⟩ | ⟨letters, z, -, -, -, hnone⟩ :=
    exists_letters hd'.areFields hd'.isResult hv hrest
  · have hdivided : IsMethodText d
        (before ++ objectText k (u ++ '(' :: letters ++ 'L' :: z) :: after) result := by
      simpa [objectText] using hd
    refine .inParameter hdivided hletters hz ?_ ?_
    · simp
    · rw [hd'.text_eq, List.cons_append, hrest]
      simp [objectText]
  · simp at hnone

/-- A descriptor that starts at a parenthesis in the result of another one cuts the signature
later. -/
theorem cutLater_of_result (hd : IsMethodText d parameters result)
    (hd' : IsMethodText d' parameters' result')
    (hresult : result = front ++ '(' :: (parameters'.flatten ++ ')' :: result')) :
    CutLater n d (n ++ '(' :: (parameters.flatten ++ ')' :: front)) d' := by
  subst hresult
  rcases hd.isResult with hnone | hfield
  · cases front <;> simp at hnone
  · obtain ⟨k, u, v, rfl, hend, hv⟩ := hfield.exists_of_parenthesis
    -- nothing follows that name, so that it is that of the result of the other descriptor, too
    obtain ⟨letters, z, -, -, -, hrest⟩ | ⟨letters, z, hletters, hz, rfl, -⟩ :=
      exists_letters hd'.areFields hd'.isResult hv hend
    · exact absurd rfl hrest
    · have hdivided : IsMethodText d parameters
          (objectText k (u ++ '(' :: letters ++ ')' :: 'L' :: z)) := by
        rw [hend] at hd
        simpa [objectText] using hd
      refine .inResult hdivided hletters hz ?_ ?_
      · simp
      · rw [hd'.text_eq, List.cons_append, hend]
        simp [objectText]

/-- **A descriptor that ends in a shorter one** mentions a class with a parenthesis in its name, and
the shorter one starts there.

**Proof sketch.** The shorter descriptor starts with a parenthesis, which stands behind the one that
the longer descriptor starts with. So it stands in the text of a parameter or in that of the result,
hence in the name of a class; and how the name goes on is known. -/
theorem cutLater_of_append (hd : isMethodDescriptor d = true) (hd' : isMethodDescriptor d' = true)
    (hx : x ≠ []) (h : d = x ++ d') : CutLater n d (n ++ x) d' := by
  obtain ⟨parameters, result, hdivided⟩ := exists_isMethodText hd
  obtain ⟨parameters', result', hdivided'⟩ := exists_isMethodText hd'
  cases x with
  | nil => exact absurd rfl hx
  | cons y x =>
    rw [hdivided.text_eq, hdivided'.text_eq, List.cons_append, List.cons_append, List.cons_append,
      List.cons.injEq] at h
    obtain ⟨rfl, h⟩ := h
    obtain ⟨rest, hflatten, hrest⟩ | ⟨front, rfl, hrest⟩ := cases_of_append_eq h
    · exact cutLater_of_parameters hdivided hdivided' hflatten hrest
    · cases front with
      | nil => simp at hrest
      | cons y front =>
        rw [List.cons_append, List.cons.injEq] at hrest
        obtain ⟨rfl, hresult⟩ := hrest
        exact cutLater_of_result hdivided hdivided' hresult

/-- A descriptor that ends in another one is that one, or the other one cuts the signature later. -/
theorem eq_or_cutLater (hd : isMethodDescriptor d = true) (hd' : isMethodDescriptor d' = true)
    (h : d = x ++ d') : (n = n ++ x ∧ d = d') ∨ CutLater n d (n ++ x) d' := by
  by_cases hx : x = []
  · subst hx
    exact .inl ⟨(List.append_nil n).symm, h⟩
  · exact .inr (cutLater_of_append hd hd' hx h)

end CutLater

/-- **Two names and descriptors make the same signature** if they are the same, or if one of them
cuts it later than the other one. -/
theorem append_eq_append_iff_cut {n d n' d' : List Char} (hd : isMethodDescriptor d = true)
    (hd' : isMethodDescriptor d' = true) :
    n ++ d = n' ++ d' ↔ (n = n' ∧ d = d') ∨ CutLater n d n' d' ∨ CutLater n' d' n d := by
  constructor
  · intro h
    obtain ⟨x, rfl, hx⟩ | ⟨x, rfl, hx⟩ := List.append_eq_append_iff.1 h
    · obtain hsame | hlater := eq_or_cutLater hd hd' hx
      · exact .inl hsame
      · exact .inr (.inl hlater)
    · obtain ⟨hn, rfl⟩ | hlater := eq_or_cutLater hd' hd hx
      · exact .inl ⟨hn.symm, rfl⟩
      · exact .inr (.inr hlater)
  · intro h
    rcases h with ⟨rfl, rfl⟩ | hlater | hlater
    · rfl
    · exact hlater.append_eq
    · exact hlater.append_eq.symm

end ClassAccess
