import MapScript.DataType.Text
import MapScript.Text.Hex

/-!
# Failures

Why a script cannot be decompiled. Failures are causes; their wording is in `Failure.message?` alone. Most are faults of
the script, those of `Inconsistency` are faults of the passes over it, and those of `PrintFault` are what has no written
form.
-/

namespace MapScript

/-- Blocks that a script opens, and the script itself. -/
inductive BlockKind
  | root
  | loop
  | branch
  | switch
  | arm
  | thread
  | childThread
  deriving DecidableEq, Repr

def BlockKind.name : BlockKind → String
  | root => "root"
  | loop => "loop"
  | branch => "if"
  | switch => "switch"
  | arm => "case"
  | thread => "thread"
  | childThread => "child_thread"

/-- Ways in which the openings and closings of blocks do not match. -/
inductive Imbalance
  | unterminated (kind : BlockKind)
  | outsideArm
  | closes (code : UInt32) (kind innermost : BlockKind)
  | otherwiseOutsideBranch
  | armOutsideSwitch
  deriving DecidableEq, Repr

def Imbalance.text : Imbalance → Text
  | unterminated kind => "End reached with unterminated " ++ kind.name ++ " block"
  | outsideArm => "statement outside of a case"
  | closes code kind innermost =>
    "opcode " ++ Hex.code code.toNat ++ " closes a " ++ kind.name ++ " block but the innermost block is " ++
      innermost.name
  | otherwiseOutsideBranch => "Else outside of an if block"
  | armOutsideSwitch => "Case outside of a switch block"

/-- What is wrong with an instruction. -/
inductive DecodeFault
  | truncated
  | unknownCode (code : UInt32)
  | unbalanced (cause : Imbalance)
  | missingOperand (code : UInt32) (position : Nat)
  | notVariable (code : UInt32)
  deriving DecidableEq, Repr

def DecodeFault.text : DecodeFault → Text
  | truncated => "script ends before End"
  | unknownCode code => "unknown opcode " ++ Hex.code code.toNat
  | unbalanced cause => cause.text
  | missingOperand code position =>
    "opcode " ++ Hex.code code.toNat ++ " expects at least " ++ .ofNat (position + 1) ++ " argument(s)"
  | notVariable code => "opcode " ++ Hex.code code.toNat ++ " writes to a non-variable operand"

/-- A fault and the address of its instruction, or of the end of a script that is cut short. -/
structure DecodeError where
  fault : DecodeFault
  address : Int
  deriving DecidableEq, Repr

def DecodeError.message (e : DecodeError) : Text := e.fault.text ++ " at " ++ Hex.address e.address

/-- Two pieces of type information about a variable that disagree. -/
inductive TypeMismatch
  | declared (name : Text) (declared used : DataType)
  | used (name : Text) (first second : DataType)
  deriving DecidableEq, Repr

def TypeMismatch.message : TypeMismatch → Text
  | .declared name type use =>
    "variable '" ++ name ++ "' declared as " ++ type.text ++ " but is used as " ++ use.text
  | .used name first second =>
    "variable '" ++ name ++ "' is used as " ++ first.text ++ " and as " ++ second.text

/-- Broken assumptions of the passes over a tree. -/
inductive Inconsistency
  | alreadyTyped (name : Text) (inferred previous : DataType)
  | alreadyPassed (name : Text) (arguments : Nat)
  | notSettled (limit : Text)
  deriving DecidableEq, Repr

def Inconsistency.message : Inconsistency → Text
  | alreadyTyped name inferred previous =>
    "type inferred for '" ++ name ++ "' (" ++ inferred.text ++ ") but it is already " ++ previous.text
  | alreadyPassed name arguments =>
    "call to script '" ++ name ++ "' already has " ++ .ofNat arguments ++ " argument(s)"
  | notSettled limit => "type inference did not converge within " ++ limit ++ " passes"

/-- Parts that have no written form. -/
inductive PrintFault
  /-- A callee with neither name nor address. -/
  | namelessCallee
  /-- A range arm of a switch without two bounds. -/
  | rangeBounds
  /-- A comparing arm of a switch without a value. -/
  | missingValue
  /-- A decimal number that is too long. -/
  | tooManyDigits
  /-- Less indentation than none. -/
  | underflow
  deriving DecidableEq, Repr

inductive Failure
  | decode (cause : DecodeError)
  /-- A script of a map that cannot be decoded. -/
  | bytecode (cause : DecodeError)
  | mismatch (cause : TypeMismatch)
  | inconsistent (cause : Inconsistency)
  /-- A scope without layers is written to. -/
  | noLayers
  | print (fault : PrintFault)
  deriving DecidableEq, Repr

namespace Failure

/-- The wording of a failure; where parts of a tree are missing there is none. -/
def message? : Failure → Option Text
  | decode cause => some cause.message
  | bytecode cause => some ("failed to decompile bytecode: " ++ cause.message)
  | mismatch cause => some cause.message
  | inconsistent cause => some cause.message
  | noLayers => some "scope has no layers"
  | print .tooManyDigits =>
    some ("Exceeds the limit (" ++ .ofNat maxDecimalDigits ++ " digits) for integer string conversion; " ++
      "use sys.set_int_max_str_digits() to increase the limit")
  | print .underflow => some "indentation underflow"
  | print _ => none

/-- Whether the failure is a fault of the script, and not of the passes over it. -/
def isScriptFault : Failure → Bool
  | decode _ | bytecode _ | mismatch _ => true
  | _ => false

end Failure

/-- The decimal text of a number. -/
def decimalText (n : Int) : Except Failure Text :=
  match Text.ofInt? n with
  | some text => .ok text
  | none => .error (.print .tooManyDigits)

/-- The failure of passes that do not settle within a limit; it is worded with the limit. -/
def Failure.unsettled (limit : Int) : Failure :=
  match decimalText limit with
  | .ok text => .inconsistent (.notSettled text)
  | .error failure => failure

theorem Failure.unsettled_ne_mismatch (limit : Int) (cause : TypeMismatch) : Failure.unsettled limit ≠ .mismatch cause := by
  unfold unsettled decimalText
  cases Text.ofInt? limit <;> nofun

end MapScript
