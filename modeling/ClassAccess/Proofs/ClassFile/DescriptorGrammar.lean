import Mathlib.Data.List.TakeWhile
import ClassAccess.ClassFile.Descriptor

/-!
# The grammar of descriptors

A text is a descriptor exactly if it is the text of a type, where class names are not empty and have
no semicolon, dot or bracket, and array types have at most 255 dimensions. The type at the start of
a text is read off it exactly, whatever follows.

## Main definitions

* `ElementType.Legal`, `FieldType.Legal`, `MethodType.Legal` — the types that descriptors may have.

## Main results

* `FieldType.read?_eq_some_iff`, `MethodType.read?_eq_some_iff` — a type is read off its own text.
* `isFieldDescriptor_iff`, `isMethodDescriptor_iff` — descriptors are the texts of types.
-/

set_option autoImplicit false

namespace ClassAccess

/-! ## Element types -/

namespace ElementType

/-- A base type, or a class with a proper name. -/
def Legal : ElementType → Prop
  | base _ => True
  | object name => name ≠ [] ∧ ∀ c ∈ name, isNameChar c = true

/-- What comes up to a character that no name has. -/
theorem span_name {name : List Char} (h : ∀ c ∈ name, isNameChar c = true) (rest : List Char) :
    (name ++ ';' :: rest).takeWhile isNameChar = name ∧
      (name ++ ';' :: rest).dropWhile isNameChar = ';' :: rest := by
  have hend : isNameChar ';' = false := by decide
  constructor
  · rw [List.takeWhile_append_of_pos h, List.takeWhile_cons_of_neg (by simp [hend]),
      List.append_nil]
  · rw [List.dropWhile_append_of_pos h, List.dropWhile_cons_of_neg (by simp [hend])]

/-- **An element type is read off its own text.** -/
theorem read?_eq_some_iff {cs rest : List Char} {t : ElementType} :
    read? cs = some (t, rest) ↔ t.Legal ∧ cs = t.text ++ rest := by
  constructor
  · intro h
    unfold read? at h
    split at h
    · cases h
    · next cs =>
      split at h
      · next c name rest' htake hdrop =>
        cases h
        have hname : ∀ d ∈ c :: name, isNameChar d = true := by
          intro d hd
          rw [← htake] at hd
          exact List.mem_takeWhile_imp hd
        refine ⟨⟨List.cons_ne_nil c name, hname⟩, ?_⟩
        have hsplit := List.takeWhile_append_dropWhile (p := isNameChar) (l := cs)
        rw [htake, hdrop] at hsplit
        rw [← hsplit]
        simp [text]
      · cases h
    · next c cs _ =>
      obtain ⟨b, hb, h⟩ := Option.map_eq_some_iff.1 h
      cases h
      rw [BaseType.ofLetter?] at hb
      have hletter : b.letter = c := by simpa using List.find?_some hb
      exact ⟨True.intro, by rw [text, hletter]; rfl⟩
  · rintro ⟨hlegal, rfl⟩
    cases t with
    | base b => cases b <;> rfl
    | object name =>
      obtain ⟨hne, hname⟩ := hlegal
      obtain ⟨htake, hdrop⟩ := span_name hname rest
      cases name with
      | nil => exact absurd rfl hne
      | cons c name =>
        have htext : text (object (c :: name)) ++ rest = 'L' :: (c :: name ++ ';' :: rest) := by
          simp [text]
        rw [htext, read?]
        simp only [htake, hdrop]

/-- The text of an element type starts with a letter of its own. -/
theorem exists_text_eq_cons (t : ElementType) :
    ∃ c cs, t.text = c :: cs ∧ c ≠ '[' ∧ c ≠ 'V' ∧ c ≠ ')' := by
  cases t with
  | base b => cases b <;> exact ⟨_, [], rfl, by decide, by decide, by decide⟩
  | object name => exact ⟨'L', name ++ [';'], rfl, by decide, by decide, by decide⟩

end ElementType

/-! ## Field types -/

namespace FieldType

/-- A legal element type under at most 255 array dimensions. -/
structure Legal (t : FieldType) : Prop where
  /-- There are not too many dimensions. -/
  dimensions : t.dimensions ≤ maxDimensions
  /-- The element type is legal. -/
  element : t.element.Legal

/-- **A field type is read off its own text.** -/
theorem read?_eq_some_iff {cs rest : List Char} {t : FieldType} :
    read? cs = some (t, rest) ↔ t.Legal ∧ cs = t.text ++ rest := by
  constructor
  · intro h
    simp only [read?] at h
    split at h
    · next hdimensions =>
      obtain ⟨⟨e, rest'⟩, he, h⟩ := Option.map_eq_some_iff.1 h
      cases h
      obtain ⟨hlegal, hrest⟩ := ElementType.read?_eq_some_iff.1 he
      refine ⟨⟨hdimensions, hlegal⟩, ?_⟩
      have hbrackets : cs.takeWhile (· = '[') =
          List.replicate (cs.takeWhile (· = '[')).length '[' := by
        refine List.eq_replicate_of_mem fun c hc => ?_
        simpa using List.mem_takeWhile_imp hc
      rw [text, ← hbrackets, List.append_assoc, ← hrest, List.takeWhile_append_dropWhile]
    · cases h
  · rintro ⟨⟨hdimensions, hlegal⟩, rfl⟩
    obtain ⟨c, cs, hcs, hbracket, -⟩ := t.element.exists_text_eq_cons
    have hrep : ∀ d ∈ List.replicate t.dimensions '[', decide (d = '[') = true :=
      fun d hd => decide_eq_true (List.eq_of_mem_replicate hd)
    have htake : (t.text ++ rest).takeWhile (· = '[') = List.replicate t.dimensions '[' := by
      rw [text, List.append_assoc, List.takeWhile_append_of_pos hrep, hcs, List.cons_append,
        List.takeWhile_cons_of_neg (by simpa using hbracket), List.append_nil]
    have hdrop : (t.text ++ rest).dropWhile (· = '[') = t.element.text ++ rest := by
      rw [text, List.append_assoc, List.dropWhile_append_of_pos hrep, hcs, List.cons_append,
        List.dropWhile_cons_of_neg (by simpa using hbracket)]
    have helement : ElementType.read? (t.element.text ++ rest) = some (t.element, rest) :=
      ElementType.read?_eq_some_iff.2 ⟨hlegal, rfl⟩
    rw [read?]
    simp only [htake, hdrop, List.length_replicate, if_pos hdimensions, helement, Option.map_some]

/-- The text of a field type starts with a character that ends no parameters and is no result. -/
theorem exists_text_eq_cons (t : FieldType) : ∃ c cs, t.text = c :: cs ∧ c ≠ 'V' ∧ c ≠ ')' := by
  obtain ⟨c, cs, hcs, -, hresult, hend⟩ := t.element.exists_text_eq_cons
  rw [text]
  cases t.dimensions with
  | zero => exact ⟨c, cs, hcs, hresult, hend⟩
  | succ n => exact ⟨'[', List.replicate n '[' ++ t.element.text, rfl, by decide, by decide⟩

/-- **Field types in a row are read off their own texts**, up to where no further one starts. -/
theorem readMany_eq_iff {cs rest : List Char} {ts : List FieldType} :
    readMany cs = (ts, rest) ↔
      (∀ t ∈ ts, t.Legal) ∧ cs = ts.flatMap text ++ rest ∧ read? rest = none := by
  fun_induction readMany cs generalizing ts rest with
  | case1 cs hnone =>
    constructor
    · intro h
      cases h
      exact ⟨List.forall_mem_nil _, rfl, hnone⟩
    · rintro ⟨hlegal, rfl, hrest⟩
      cases ts with
      | nil => rfl
      | cons t ts =>
        have hread :
            read? ((t :: ts).flatMap text ++ rest) = some (t, ts.flatMap text ++ rest) := by
          refine read?_eq_some_iff.2 ⟨hlegal t List.mem_cons_self, ?_⟩
          rw [List.flatMap_cons, List.append_assoc]
        rw [hread] at hnone
        cases hnone
  | case2 cs t rest' hread ts' last hmany ih =>
    obtain ⟨ht, rfl⟩ := read?_eq_some_iff.1 hread
    constructor
    · intro h
      cases h
      obtain ⟨hts, rfl, hlast⟩ := ih.1 hmany
      refine ⟨List.forall_mem_cons.2 ⟨ht, hts⟩, ?_, hlast⟩
      rw [List.flatMap_cons, List.append_assoc]
    · rintro ⟨hlegal, hcs, hrest⟩
      cases ts with
      | nil =>
        rw [List.flatMap_nil, List.nil_append] at hcs
        rw [← hcs, hread] at hrest
        cases hrest
      | cons u us =>
        obtain ⟨hu, hus⟩ := List.forall_mem_cons.1 hlegal
        -- the first type of the row is the one that was read
        have hread' : read? (t.text ++ rest') = some (u, us.flatMap text ++ rest) := by
          refine read?_eq_some_iff.2 ⟨hu, ?_⟩
          rw [hcs, List.flatMap_cons, List.append_assoc]
        rw [hread] at hread'
        cases hread'
        have hrow := ih.2 ⟨hus, rfl, hrest⟩
        rw [hmany] at hrow
        cases hrow
        rfl

end FieldType

/-! ## Method types -/

namespace MethodType

/-- Legal field types for the parameters and for the result, if there is one. -/
structure Legal (t : MethodType) : Prop where
  /-- The types of the parameters are legal. -/
  parameters : ∀ p ∈ t.parameters, p.Legal
  /-- So is the type of the result. -/
  result : ∀ r, t.result = some r → r.Legal

/-- The text of a result type. -/
def resultText : Option FieldType → List Char
  | none => ['V']
  | some r => r.text

/-- The text of a method type, with that of its result. -/
theorem text_eq (t : MethodType) :
    t.text = '(' :: (t.parameters.flatMap FieldType.text ++ ')' :: resultText t.result) := by
  cases h : t.result <;> simp [text, resultText, h]

/-- A result type is read off its own text. -/
theorem readResult?_eq_some_iff {cs rest : List Char} {r? : Option FieldType} :
    readResult? cs = some (r?, rest) ↔
      (∀ r, r? = some r → r.Legal) ∧ cs = resultText r? ++ rest := by
  constructor
  · intro h
    unfold readResult? at h
    split at h
    · cases h
      exact ⟨nofun, rfl⟩
    · obtain ⟨⟨t, rest'⟩, ht, h⟩ := Option.map_eq_some_iff.1 h
      cases h
      obtain ⟨hlegal, rfl⟩ := FieldType.read?_eq_some_iff.1 ht
      refine ⟨fun r hr => ?_, rfl⟩
      cases hr
      exact hlegal
  · rintro ⟨hlegal, rfl⟩
    cases r? with
    | none => rfl
    | some r =>
      have hread : FieldType.read? (r.text ++ rest) = some (r, rest) :=
        FieldType.read?_eq_some_iff.2 ⟨hlegal r rfl, rfl⟩
      obtain ⟨c, cs, hcs, hresult, -⟩ := r.exists_text_eq_cons
      rw [resultText]
      unfold readResult?
      split
      · next heq =>
        rw [hcs] at heq
        cases heq
        exact absurd rfl hresult
      · rw [hread, Option.map_some]

/-- **A method type is read off its own text.** -/
theorem read?_eq_some_iff {cs rest : List Char} {t : MethodType} :
    read? cs = some (t, rest) ↔ t.Legal ∧ cs = t.text ++ rest := by
  constructor
  · intro h
    unfold read? at h
    split at h
    · next cs =>
      split at h
      · next parameters rest' hmany =>
        obtain ⟨⟨r?, rest''⟩, hresult, h⟩ := Option.map_eq_some_iff.1 h
        cases h
        obtain ⟨hparameters, hcs, -⟩ := FieldType.readMany_eq_iff.1 hmany
        obtain ⟨hlegal, hrest⟩ := readResult?_eq_some_iff.1 hresult
        refine ⟨⟨hparameters, hlegal⟩, ?_⟩
        rw [text_eq, hcs, hrest]
        simp
      · cases h
    · cases h
  · rintro ⟨⟨hparameters, hlegal⟩, rfl⟩
    have hresult : readResult? (resultText t.result ++ rest) = some (t.result, rest) :=
      readResult?_eq_some_iff.2 ⟨hlegal, rfl⟩
    have hend : FieldType.read? (')' :: (resultText t.result ++ rest)) = none := by
      cases h : FieldType.read? (')' :: (resultText t.result ++ rest)) with
      | none => rfl
      | some p =>
        obtain ⟨-, hcs⟩ := FieldType.read?_eq_some_iff.1 h
        obtain ⟨c, cs, hc, -, hne⟩ := p.1.exists_text_eq_cons
        rw [hc, List.cons_append] at hcs
        exact absurd (List.cons.inj hcs).1.symm hne
    have hmany := FieldType.readMany_eq_iff.2 ⟨hparameters, rfl, hend⟩
    have htext : t.text ++ rest =
        '(' :: (t.parameters.flatMap FieldType.text ++ ')' :: (resultText t.result ++ rest)) := by
      rw [text_eq]
      simp
    rw [htext, read?]
    simp only [hmany, hresult, Option.map_some]

end MethodType

/-! ## Descriptors -/

/-- What was read off a text to its end. -/
theorem isAllRead_iff {α : Type} {found : Option (α × List Char)} :
    isAllRead found = true ↔ ∃ a, found = some (a, []) := by
  match found with
  | none => simp [isAllRead]
  | some (a, []) => simp [isAllRead]
  | some (a, c :: rest) => simp [isAllRead]

/-- **The descriptors of fields are the texts of field types.** -/
theorem isFieldDescriptor_iff {text : List Char} :
    isFieldDescriptor text = true ↔ ∃ t : FieldType, t.Legal ∧ t.text = text := by
  rw [isFieldDescriptor, isAllRead_iff]
  simp only [FieldType.read?_eq_some_iff, List.append_nil, eq_comm (a := text)]

/-- **The descriptors of methods are the texts of method types.** -/
theorem isMethodDescriptor_iff {text : List Char} :
    isMethodDescriptor text = true ↔ ∃ t : MethodType, t.Legal ∧ t.text = text := by
  rw [isMethodDescriptor, isAllRead_iff]
  simp only [MethodType.read?_eq_some_iff, List.append_nil, eq_comm (a := text)]

end ClassAccess
