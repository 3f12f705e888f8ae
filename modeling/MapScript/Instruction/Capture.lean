import MapScript.Instruction.Basic
import MapScript.Operand

/-!
# Captured words

A script captures the local words of its caller that it reads before it writes them. The scan for them goes through the
instructions in order and ignores the flow of control.
-/

namespace MapScript

namespace Opcode

/-- Whether the operation gives a variable a value that does not depend on the one it has. -/
def isSet : Opcode → Bool
  | set | setConst | setFixed => true
  | _ => false

def isArithmetic : Opcode → Bool
  | arithmetic _ => true
  | _ => false

end Opcode

/-- Indices of the local words among operands. -/
def localWords (operands : List Int32) : List Int :=
  operands.filterMap fun w => match Operand.ofInt w.toInt with
    | .variable ⟨.localWord, index⟩ => some index
    | _ => none

namespace Instruction

/-- Operands that an instruction reads. One that sets a variable reads the operand behind it, unless that stands for a
constant; all others read every operand, but arithmetic only the first two. -/
def reads (i : Instruction) : List Int32 :=
  match i.opcode?, i.operands with
  | some .setConst, _ :: _ :: _ => []
  | some op, a :: b :: rest => if op.isSet then [b] else if op.isArithmetic then [a, b] else a :: b :: rest
  | _, operands => operands

/-- Operands that an instruction writes. -/
def writes (i : Instruction) : List Int32 :=
  match i.opcode?, i.operands with
  | some op, a :: _ :: _ => if op.isSet || op.isArithmetic then [a] else []
  | _, _ => []

end Instruction

/-- Indices of the local words that instructions read and that are neither `written` nor written by an earlier one. -/
def capturedFrom (written : List Int) : List Instruction → List Int
  | [] => []
  | i :: rest =>
    (localWords i.reads).filter (· ∉ written) ++ capturedFrom (localWords i.writes ++ written) rest

/-- One past the greatest index of a captured local word of the script in `bytes`, zero if it captures none. -/
def capturedWords (address : Int) (bytes : List UInt8) : Int :=
  match (capturedFrom [] (instructions address bytes)).max? with
  | some index => index + 1
  | none => 0

end MapScript
