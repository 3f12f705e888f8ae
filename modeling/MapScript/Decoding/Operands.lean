import MapScript.Instruction.Capture
import MapScript.Logged
import MapScript.Overlay
import MapScript.Script.Lookup

/-!
# Operands in a scope

What the operands of instructions are in a tree: expressions, variables to write, and callees. Reading them makes the
scope know what they name: variables of storage outside the script, native methods and scripts that are called for the
first time.
-/

namespace MapScript

/-- A word without its sign, the form of addresses. -/
def unsigned (w : Int32) : Int := w.toUInt32.toNat

/-- The type that a variable has from its storage class alone. -/
def Variable.initialType (v : Variable) : DataType := if v.storage.isFlag then .bool else .any

/-- Binds the name of a variable outside the script unless it is bound. -/
def Scope.meet (s : Scope) (v : Variable) : Except Failure Scope :=
  match s.typeOf? v.name with
  | some _ => .ok s
  | none => s.bindName v.name v.initialType

/-- Whether a word is the address of something known: a name in scope or a place in the map image. -/
def isPointer (image : Option Overlay) (s : Scope) (w : Int32) : Bool :=
  (s.nameAt? (unsigned w)).isSome || image.any (·.contains (unsigned w))

/-- The expression that a word stands for. -/
def readExpr (image : Option Overlay) (w : Int32) (s : Scope) : Except Failure (Expr × Scope) :=
  if isPointer image s w then .ok (.pointer (unsigned w), s)
  else match Operand.ofInt w.toInt with
    | .literal value => .ok (.int value, s)
    | .fixed value => .ok (.float value, s)
    | .variable v =>
      if v.storage.isLocal then .ok (.identifier v.name, s)
      else do return (.identifier v.name, ← s.meet v)

/-- The expressions that words stand for, read one behind the other. -/
def readExprs (image : Option Overlay) : List Int32 → Scope → Except Failure (List Expr × Scope)
  | [], s => .ok ([], s)
  | w :: rest, s => do
    let (e, s) ← readExpr image w s
    let (es, s) ← readExprs image rest s
    return (e :: es, s)

/-- The expression that a word stands for where no variables and numbers of other kinds are meant. -/
def constantExpr (w : Int32) (s : Scope) : Expr :=
  if (s.nameAt? (unsigned w)).isSome then .pointer (unsigned w) else .int w.toInt

/-- The native method that a word calls with `arity` arguments; an unknown address becomes a method of that many
parameters. -/
def readMethod (target : Int32) (arity : Nat) (s : Scope) : Except Failure (Callee × Scope) :=
  match Operand.ofInt target.toInt with
  | .variable v => .ok (.named v.name, s)
  | _ =>
    let address := unsigned target
    match s.nameAt? address with
    | some _ => .ok (.pointer address, s)
    | none => do
      let s ← s.bindAddress address ("func_" ++ Hex.padded 8 address) (.native (List.replicate arity .any))
      return (.pointer address, s)

/-- Local words that the script at an address captures; none if it lies outside the map image, which is reported. -/
def capturedBy (image : Option Overlay) (address : Int) : Logged Failure Int :=
  match image.bind (·.read? address) with
  | some bytes => return capturedWords address bytes
  | none => do
    .report (.outsideImage address)
    return 0

/-- The script that a word starts; an unknown address becomes a script whose parameters are the words it captures. -/
def readScript (image : Option Overlay) (target : Int32) (s : Scope) : Logged Failure (Callee × Scope) :=
  match Operand.ofInt target.toInt with
  | .variable v => return (.named v.name, s)
  | _ =>
    let address := unsigned target
    match s.nameAt? address with
    | some _ => return (.pointer address, s)
    | none => do
      let arity ← capturedBy image address
      let s ← s.bindAddress address ("script_" ++ Hex.padded 8 address) (.script (List.replicate arity.toNat .any))
      return (.pointer address, s)

end MapScript
