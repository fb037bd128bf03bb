import ClassAccess.Proofs.ClassFile.DescriptorGrammar

/-!
# Which texts are descriptors

The grammar of descriptors, given on the texts alone: which characters stand in them, and in which
order. A text is a descriptor exactly if the grammar generates it. Characters that the grammar uses
may stand in the names of classes as well, parentheses among them, and still there is only one way
to divide the descriptor of a method into the types of its parameters and the type of its result.

## Main definitions

* `IsElementText`, `IsFieldText` — the texts of element types and of field types.
* `IsMethodText` — the texts of method types, divided into their parts.

## Main results

* `isElementText_iff`, `isFieldText_iff`, `isMethodText_iff` — the grammar generates the texts of
  types.
* `MethodType.eq_of_text_eq` — different types have different texts.
* `descriptor_exactly` — descriptors are what the grammar generates, in one way only.
-/

set_option autoImplicit false

namespace ClassAccess

/-! ## The grammar -/

/-- The texts of element types. -/
inductive IsElementText : List Char → Prop
  /-- A letter stands for a base type. -/
  | base {c : Char} (letter : c ∈ ['B', 'C', 'D', 'F', 'I', 'J', 'S', 'Z']) : IsElementText [c]
  /-- The name of a class stands between `L` and a semicolon. -/
  | object {name : List Char} (nonempty : name ≠ [])
      (chars : ∀ c ∈ name, c ≠ ';' ∧ c ≠ '.' ∧ c ≠ '[') : IsElementText ('L' :: name ++ [';'])

/-- The texts of field types: an element type behind at most 255 brackets. -/
def IsFieldText (text : List Char) : Prop :=
  ∃ dimensions element, dimensions ≤ 255 ∧ IsElementText element ∧
    text = List.replicate dimensions '[' ++ element

/-- The text of a method type consists of the field types `parameters` in parentheses and of
`result`, which is a field type or a `V`. -/
structure IsMethodText (text : List Char) (parameters : List (List Char)) (result : List Char) :
    Prop where
  /-- The parameters have field types. -/
  areFields : ∀ p ∈ parameters, IsFieldText p
  /-- So has the result, if there is one. -/
  isResult : result = ['V'] ∨ IsFieldText result
  /-- Nothing else is in the text. -/
  text_eq : text = '(' :: parameters.flatten ++ ')' :: result

/-! ## The grammar and the types -/

/-- The letters of the grammar are those of the base types. -/
theorem mem_letters_iff {c : Char} :
    c ∈ ['B', 'C', 'D', 'F', 'I', 'J', 'S', 'Z'] ↔ ∃ b : BaseType, b.letter = c := by
  constructor
  · intro h
    simp only [List.mem_cons, List.not_mem_nil, or_false] at h
    rcases h with rfl | rfl | rfl | rfl | rfl | rfl | rfl | rfl
    exacts [⟨.byte, rfl⟩, ⟨.char, rfl⟩, ⟨.double, rfl⟩, ⟨.float, rfl⟩, ⟨.int, rfl⟩, ⟨.long, rfl⟩,
      ⟨.short, rfl⟩, ⟨.boolean, rfl⟩]
  · intro h
    obtain ⟨b, rfl⟩ := h
    cases b <;> simp [BaseType.letter]

/-- The characters that the grammar allows in the name of a class. -/
theorem isNameChar_iff {c : Char} :
    ElementType.isNameChar c = true ↔ c ≠ ';' ∧ c ≠ '.' ∧ c ≠ '[' := by
  simp [ElementType.isNameChar, and_assoc]

/-- The texts of element types are those of the legal ones. -/
theorem isElementText_iff {text : List Char} :
    IsElementText text ↔ ∃ t : ElementType, t.Legal ∧ t.text = text := by
  constructor
  · intro h
    cases h with
    | base letter =>
      obtain ⟨b, rfl⟩ := mem_letters_iff.1 letter
      exact ⟨.base b, True.intro, rfl⟩
    | @object name nonempty chars =>
      exact ⟨.object name, ⟨nonempty, fun c hc => isNameChar_iff.2 (chars c hc)⟩, rfl⟩
  · intro h
    obtain ⟨t, hlegal, rfl⟩ := h
    cases t with
    | base b => exact .base (mem_letters_iff.2 ⟨b, rfl⟩)
    | object name =>
      obtain ⟨hne, hchars⟩ := hlegal
      exact .object hne fun c hc => isNameChar_iff.1 (hchars c hc)

/-- The texts of field types are those of the legal ones. -/
theorem isFieldText_iff {text : List Char} :
    IsFieldText text ↔ ∃ t : FieldType, t.Legal ∧ t.text = text := by
  constructor
  · intro h
    obtain ⟨n, element, hn, helement, rfl⟩ := h
    obtain ⟨t, hlegal, rfl⟩ := isElementText_iff.1 helement
    exact ⟨⟨n, t⟩, ⟨hn, hlegal⟩, rfl⟩
  · intro h
    obtain ⟨t, hlegal, rfl⟩ := h
    exact ⟨t.dimensions, t.element.text, hlegal.dimensions,
      isElementText_iff.2 ⟨t.element, hlegal.element, rfl⟩, rfl⟩

/-- Texts of field types in a row are those of legal types in a row. -/
theorem forall_isFieldText_iff {texts : List (List Char)} :
    (∀ p ∈ texts, IsFieldText p) ↔
      ∃ ts : List FieldType, (∀ t ∈ ts, t.Legal) ∧ ts.map FieldType.text = texts := by
  constructor
  · intro h
    induction texts with
    | nil => exact ⟨[], List.forall_mem_nil _, rfl⟩
    | cons p texts ih =>
      obtain ⟨hp, htexts⟩ := List.forall_mem_cons.1 h
      obtain ⟨t, ht, rfl⟩ := isFieldText_iff.1 hp
      obtain ⟨ts, hts, rfl⟩ := ih htexts
      exact ⟨t :: ts, List.forall_mem_cons.2 ⟨ht, hts⟩, rfl⟩
  · intro h
    obtain ⟨ts, hts, rfl⟩ := h
    intro p hp
    obtain ⟨t, ht, rfl⟩ := List.mem_map.1 hp
    exact isFieldText_iff.2 ⟨t, hts t ht, rfl⟩

/-- The texts of results are those of legal types, or of no type. -/
theorem isResultText_iff {text : List Char} :
    text = ['V'] ∨ IsFieldText text ↔
      ∃ r? : Option FieldType, (∀ r, r? = some r → r.Legal) ∧ MethodType.resultText r? = text := by
  constructor
  · intro h
    rcases h with rfl | h
    · exact ⟨none, nofun, rfl⟩
    · obtain ⟨t, ht, rfl⟩ := isFieldText_iff.1 h
      refine ⟨some t, fun r hr => ?_, rfl⟩
      cases hr
      exact ht
  · intro h
    obtain ⟨r?, hlegal, rfl⟩ := h
    cases r? with
    | none => exact .inl rfl
    | some r => exact .inr (isFieldText_iff.2 ⟨r, hlegal r rfl, rfl⟩)

/-- **The grammar generates the texts of the legal method types**, divided into the texts of their
parts. -/
theorem isMethodText_iff {text : List Char} {parameters : List (List Char)} {result : List Char} :
    IsMethodText text parameters result ↔
      ∃ t : MethodType, t.Legal ∧ t.text = text ∧ t.parameters.map FieldType.text = parameters ∧
        MethodType.resultText t.result = result := by
  have htext : ∀ t : MethodType, t.text =
      '(' :: (t.parameters.map FieldType.text).flatten ++
        ')' :: MethodType.resultText t.result := by
    intro t
    rw [t.text_eq, List.flatMap_def]
    rfl
  constructor
  · intro h
    obtain ⟨ts, hts, rfl⟩ := forall_isFieldText_iff.1 h.areFields
    obtain ⟨r?, hr, rfl⟩ := isResultText_iff.1 h.isResult
    exact ⟨⟨ts, r?⟩, ⟨hts, hr⟩, (htext _).trans h.text_eq.symm, rfl, rfl⟩
  · intro h
    obtain ⟨t, hlegal, rfl, rfl, rfl⟩ := h
    exact ⟨forall_isFieldText_iff.2 ⟨_, hlegal.parameters, rfl⟩,
      isResultText_iff.2 ⟨_, hlegal.result, rfl⟩, htext t⟩

/-! ## Descriptors -/

/-- Legal method types with the same text are the same: each of them is what is read off that
text. -/
theorem MethodType.eq_of_text_eq {t u : MethodType} (ht : t.Legal) (hu : u.Legal)
    (h : t.text = u.text) : t = u := by
  have hread : read? t.text = some (t, []) := read?_eq_some_iff.2 ⟨ht, (List.append_nil _).symm⟩
  have hread' : read? t.text = some (u, []) :=
    read?_eq_some_iff.2 ⟨hu, h.trans (List.append_nil _).symm⟩
  rw [hread] at hread'
  cases hread'
  rfl

/-- **A text is a descriptor exactly if the grammar generates it**, and the text of a method type is
divided into the types of the parameters and that of the result in one way only. -/
theorem descriptor_exactly (text : List Char) :
    (isFieldDescriptor text = true ↔ IsFieldText text) ∧
      (isMethodDescriptor text = true ↔ ∃ parameters result, IsMethodText text parameters result) ∧
      ∀ parameters result parameters' result', IsMethodText text parameters result →
        IsMethodText text parameters' result' → parameters' = parameters ∧ result' = result := by
  refine ⟨isFieldDescriptor_iff.trans isFieldText_iff.symm, ?_, ?_⟩
  · rw [isMethodDescriptor_iff]
    constructor
    · intro h
      obtain ⟨t, hlegal, ht⟩ := h
      exact ⟨_, _, isMethodText_iff.2 ⟨t, hlegal, ht, rfl, rfl⟩⟩
    · intro h
      obtain ⟨parameters, result, hdivided⟩ := h
      obtain ⟨t, hlegal, ht, -, -⟩ := isMethodText_iff.1 hdivided
      exact ⟨t, hlegal, ht⟩
  · intro parameters result parameters' result' h h'
    obtain ⟨t, hlegal, ht, rfl, rfl⟩ := isMethodText_iff.1 h
    obtain ⟨u, hlegal', hu, rfl, rfl⟩ := isMethodText_iff.1 h'
    have hsame : t = u := MethodType.eq_of_text_eq hlegal hlegal' (ht.trans hu.symm)
    rw [hsame]
    exact ⟨rfl, rfl⟩

/-- A method with an array and an object as parameters, where the name of the class looks like the
end of the descriptor. -/
theorem descriptor_exactly_sample :
    let text := "([[IL)V;)V".toList
    isMethodDescriptor text = true ∧
      ∀ parameters result, IsMethodText text parameters result →
        parameters = ["[[I".toList, "L)V;".toList] ∧ result = "V".toList := by
  intro text
  obtain ⟨hfield, hmethod, hunique⟩ := descriptor_exactly text
  have hdivided : IsMethodText text ["[[I".toList, "L)V;".toList] "V".toList := by
    refine ⟨?_, .inl rfl, rfl⟩
    intro p hp
    simp only [List.mem_cons, List.not_mem_nil, or_false] at hp
    rcases hp with rfl | rfl
    · exact ⟨2, ['I'], by decide, .base (by decide), rfl⟩
    · exact ⟨0, "L)V;".toList, by decide, @IsElementText.object [')', 'V'] (by simp) (by simp),
        rfl⟩
  exact ⟨hmethod.2 ⟨_, _, hdivided⟩, fun parameters result h => hunique _ _ _ _ hdivided h⟩

/-- The number of dimensions is limited, also for a parameter. -/
example : isMethodDescriptor ('(' :: List.replicate 255 '[' ++ "I)V".toList) = true ∧
    isMethodDescriptor ('(' :: List.replicate 256 '[' ++ "I)V".toList) = false := by
  decide +kernel

end ClassAccess
