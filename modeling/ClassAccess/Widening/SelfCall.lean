import ClassAccess.ClassFile.ConstantPool
import ClassAccess.ClassFile.Instruction

/-!
# Calls of a method to itself

A private method is called by an instruction that is bound to it beforehand. Once the method is no
longer private it may be overridden, and such calls in its own body have to be bound when they run.

## Main definitions

* `SelfCall.sites` — where a method calls itself in this way.
* `SelfCall.rewrite` — the code with these calls bound when they run.
-/

set_option autoImplicit false

namespace ClassAccess.SelfCall

/-- Whether an instruction is a call that is bound beforehand and leads to `callee`, a method of a
class. Another instruction is none, and a call that leads to no method is an error. -/
def isSite (pool : ConstantPool) (callee : MethodRef) (code : List UInt8) (i : Instruction) :
    Except ClassFileError Bool :=
  if i.opcode ≠ Instruction.invokeSpecial then .ok false
  else match i.operand? code with
    | none => .error (.truncatedInstruction i.pc)
    | some index => do
      let found ← pool.methodRef index
      return decide (found = callee)

/-- Where in a list of instructions the calls to `callee` stand, up to the first call that leads to
no method. -/
def sitesAmong (pool : ConstantPool) (callee : MethodRef) (code : List UInt8) :
    List Instruction → Except ClassFileError (List Nat)
  | [] => .ok []
  | i :: rest => do
    let here ← isSite pool callee code i
    let later ← sitesAmong pool callee code rest
    return if here then i.pc :: later else later

/-- Where in the code of the method `name` with a descriptor of the class `owner` that method calls
itself. -/
def sites (pool : ConstantPool) (owner name descriptor : String) (code : List UInt8) :
    Except ClassFileError (List Nat) := do
  let w := Code.walk code
  let pcs ← sitesAmong pool ⟨owner, name, descriptor, false⟩ code w.instructions
  match w.fault with
  | none => return pcs
  | some e => throw e

/-- The code with the calls at `pcs` bound when they run. -/
def rewrite (pcs : List Nat) (code : List UInt8) : List UInt8 :=
  pcs.foldl (fun code pc => code.set pc Instruction.invokeVirtual) code

/-- Rewriting calls keeps the length of the code. -/
@[simp]
theorem length_rewrite (pcs : List Nat) (code : List UInt8) :
    (rewrite pcs code).length = code.length := by
  induction pcs generalizing code with
  | nil => rfl
  | cons pc pcs ih => exact (ih _).trans (List.length_set ..)

end ClassAccess.SelfCall
