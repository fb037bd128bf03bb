import ClassAccess.Proofs.ClassFile.Outline
import ClassAccess.Proofs.Widening.OpenedMethods

/-!
# What applying a rule set leaves of a class

Only flag words and opcodes change. A file that a rule set was applied to reads as a class with the
same outline, and its methods are divided into instructions as before.

## Main definitions

* `Code.Divided` — where the instructions of code start, and how long they are.

## Main results

* `divided_updated` — the code of a method is divided as before.
* `RuleSet.outline_of_widen` — what stays of a class and of the code of its methods.
-/

set_option autoImplicit false

namespace ClassAccess

/-- A walk over the code reaches its end, and its instructions start in the first halves of `places`
and have the lengths in the second ones. -/
def Code.Divided (code : List UInt8) (places : List (Nat × Nat)) : Prop :=
  ∃ is, walk code = ⟨is, none⟩ ∧ is.map (fun i => (i.pc, i.length)) = places

section Structure

variable {s : RuleSet} {file : List UInt8} {c : ClassFile} {a : ClassFile.Answers}

/-- **The code of a method is divided into instructions as before.** -/
theorem divided_updated (h : ClassFile.read file = .ok c) (ha : s.answers c = .ok a) {m : Method}
    (hm : m ∈ c.methods) (w : Flags) {code : List UInt8} (hcode : c.code? m = some code) :
    ∃ code' places, (c.updated a).code? (m.withFlags w) = some code' ∧ Code.Divided code places ∧
      Code.Divided code' places := by
  obtain ⟨pcs, hsites, -⟩ := ClassFile.exists_answerFor_of_mem ha hm
  obtain ⟨-, n, -, -, -, hcount⟩ := ClassFile.exists_span_of_code? h hm hcode
  obtain ⟨is, hrow, -⟩ := Code.exists_row_of_count hcount
  obtain ⟨is', hrow', hplaces⟩ := exists_row_rewrite hrow (callsItself_of_mem h hm hsites hcode)
  refine ⟨SelfCall.rewrite pcs code, _, ?_, ⟨is, hrow.walkFrom_eq, rfl⟩,
    ⟨is', hrow'.walkFrom_eq, hplaces⟩⟩
  rw [code?_updated h ha hm hsites, hcode, Option.map_some]

end Structure

namespace RuleSet

variable {s : RuleSet} {file : List UInt8} {r : Report}

/-- **A file that a rule set was applied to reads as the class with other flag words**: its outline
is the same, and the code of each method is divided into instructions as before. -/
theorem outline_of_widen (h : s.widen file = .ok r) :
    ∃ c c', ClassFile.read file = .ok c ∧ ClassFile.read r.bytes = .ok c' ∧ c'.outline = c.outline ∧
      List.Forall₂ (fun m m' => ∀ code, c.code? m = some code → ∃ code' places,
        c'.code? m' = some code' ∧ Code.Divided code places ∧ Code.Divided code' places)
        c.methods c'.methods := by
  obtain ⟨c, a, hread, ha, -, hread'⟩ := read_of_widen h
  refine ⟨c, c.updated a, hread, hread', ClassFile.outline_updated (fills_of_answersFor hread ha),
    ?_⟩
  rw [methods_updated ha, List.forall₂_map_right_iff, List.forall₂_same]
  exact fun m hm code hcode => divided_updated hread ha hm _ hcode

/-- What stays of the small class. -/
theorem outline_of_widen_sample :
    Sample.rules.widen Sample.file = .ok Sample.report ∧
      ∃ c c', ClassFile.read Sample.file = .ok c ∧ ClassFile.read Sample.report.bytes = .ok c' ∧
        c'.outline = c.outline ∧
        List.Forall₂ (fun m m' => ∀ code, c.code? m = some code → ∃ code' places,
          c'.code? m' = some code' ∧ Code.Divided code places ∧ Code.Divided code' places)
          c.methods c'.methods :=
  ⟨Sample.widen_file, outline_of_widen Sample.widen_file⟩

end RuleSet

end ClassAccess
