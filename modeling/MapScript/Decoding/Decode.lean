import MapScript.Decoding.OpenBlocks
import MapScript.Decoding.Operands

/-!
# From listings to trees

A script is read instruction by instruction. The state of the walk is the tree so far with its open blocks, the scope,
and the local variables that have been declared. `step` does one instruction; `decodeFrom` goes through a listing and
succeeds when it meets the instruction that finishes the script outside all blocks.

Local variables are declared where they are first set. Types are not inferred here: a flag is a truth value, every other
variable has the wildcard type.
-/

namespace MapScript

/-- How far a script has been read. -/
structure Walk where
  script : OpenScript
  scope : Scope
  declared : List Variable

namespace Instruction

/-- The failure that a fault of this instruction is. -/
def failure (i : Instruction) (fault : DecodeFault) : Failure := .decode ⟨fault, i.address⟩

/-- The operand at a position. -/
def operand (i : Instruction) (position : Nat) : Except Failure Int32 :=
  match i.operands[position]? with
  | some w => .ok w
  | none => .error (i.failure (.missingOperand i.code position))

/-- The variable that the first operand stands for. -/
def target (i : Instruction) : Except Failure Variable := do
  match Operand.ofInt (← i.operand 0).toInt with
  | .variable v => .ok v
  | _ => .error (i.failure (.notVariable i.code))

end Instruction

namespace Opcode

/-- Operations that may stand in a switch and outside its arms. -/
def isSwitchPart : Opcode → Bool
  | arm _ | armDefault | armRange | endSwitch => true
  | _ => false

end Opcode

namespace Walk

def start (scope : Scope) : Walk := ⟨.empty, scope, []⟩

def append (w : Walk) (s : Stmt) : Walk := { w with script := w.script.append s }

def enter (w : Walk) (opener : Opener) : Walk := { w with script := w.script.enter opener }

/-- Closes the innermost block, which has to be of this kind. -/
def close (w : Walk) (i : Instruction) (kind : BlockKind) : Except Failure Walk :=
  match w.script.close? kind with
  | some script => .ok { w with script }
  | none => .error (i.failure (.unbalanced (.closes i.code kind w.script.innermost)))

/-- The expression at a position among the operands. -/
def expr (w : Walk) (image : Option Overlay) (i : Instruction) (position : Nat) : Except Failure (Expr × Walk) := do
  let (e, scope) ← readExpr image (← i.operand position) w.scope
  return (e, { w with scope })

/-- The expressions at positions among the operands, read one behind the other. -/
def exprs (w : Walk) (image : Option Overlay) (i : Instruction) : List Nat → Except Failure (List Expr × Walk)
  | [] => .ok ([], w)
  | position :: rest => do
    let (e, w) ← w.expr image i position
    let (es, w) ← w.exprs image i rest
    return (e :: es, w)

/-- Sets a variable; the first time a local one is set declares it. -/
def set (w : Walk) (v : Variable) (value : Expr) : Except Failure Walk :=
  if v.storage.isLocal then
    if v ∈ w.declared then .ok (w.append (.assign v.name "=" value))
    else do
      let scope ← w.scope.bindName v.name v.initialType
      return { w with scope, declared := v :: w.declared }.append (.declare v.initialType v.name (some value))
  else do
    let scope ← w.scope.meet v
    return { w with scope }.append (.assign v.name "=" value)

/-- Combines a variable with a value. -/
def update (w : Walk) (v : Variable) (operator : String) (value : Expr) : Except Failure Walk :=
  if v.storage.isLocal then .ok (w.append (.assign v.name operator value))
  else do
    let scope ← w.scope.meet v
    return { w with scope }.append (.assign v.name operator value)

/-- Opens a branch with a condition on the first two operands. -/
def branch (w : Walk) (image : Option Overlay) (i : Instruction) (test : Relation) : Except Failure Walk := do
  let (lhs, w) ← w.expr image i 0
  let (rhs, w) ← w.expr image i 1
  return w.enter (.branch (.comparison lhs test.symbol rhs))

/-- Opens a branch with a condition on the first operand and a mask. -/
def branchMask (w : Walk) (image : Option Overlay) (i : Instruction) (operator : String) : Except Failure Walk := do
  let (lhs, w) ← w.expr image i 0
  let mask ← i.operand 1
  return w.enter (.branch (.comparison lhs operator (.int mask.toInt)))

/-- Goes on to the second block of the innermost branch. -/
def otherwise (w : Walk) (i : Instruction) : Except Failure Walk :=
  match w.script.otherwise? with
  | some script => .ok { w with script }
  | none => .error (i.failure (.unbalanced .otherwiseOutsideBranch))

/-- Opens an arm that compares the value of the innermost switch with the expressions at these positions. -/
def arm (w : Walk) (image : Option Overlay) (i : Instruction) (operator : String) (positions : List Nat) :
    Except Failure Walk := do
  let some (value, arms, outside) := w.script.switch? | .error (i.failure (.unbalanced .armOutsideSwitch))
  let (values, w) ← w.exprs image i positions
  return { w with script := outside.enter (.arm value arms operator values) }

/-- Closes the innermost switch together with its open arm. -/
def endSwitch (w : Walk) (i : Instruction) : Except Failure Walk :=
  match w.script.endSwitch? with
  | some script => .ok { w with script }
  | none => .error (i.failure (.unbalanced (.closes i.code .switch w.script.innermost)))

/-- Starts a script. -/
def exec (w : Walk) (image : Option Overlay) (i : Instruction) (kind : CallKind) : Logged Failure Walk := do
  let (callee, scope) ← readScript image (← i.operand 0) w.scope
  return { w with scope }.append (.call callee [] kind)

/-- Calls a native method with the operands behind the first as its arguments. -/
def call (w : Walk) (image : Option Overlay) (i : Instruction) : Except Failure Walk := do
  let target ← i.operand 0
  let (arguments, scope) ← readExprs image (i.operands.drop 1) w.scope
  let (callee, scope) ← readMethod target arguments.length scope
  return { w with scope }.append (.call callee arguments .call)

/-- Does an instruction with a known operation, other than the one that finishes a script. -/
def perform (w : Walk) (image : Option Overlay) (i : Instruction) : Opcode → Logged Failure Walk
  | .finish => return w
  | .ret => return w.append .ret
  | .label => return w.append (.label (← i.operand 0).toInt)
  | .goto => return w.append (.goto (← i.operand 0).toInt)
  | .loop => do
    if (← i.operand 0) = 0 then return w.enter (.loop none)
    let (count, w) ← w.expr image i 0
    return w.enter (.loop (some count))
  | .endLoop => w.close i .loop
  | .breakLoop => return w.append .breakLoop
  | .wait => do
    let (amount, w) ← w.expr image i 0
    return w.append (.wait amount false)
  | .waitSeconds => do
    let (amount, w) ← w.expr image i 0
    return w.append (.wait amount true)
  | .branch test => w.branch image i test
  | .branchMask => w.branchMask image i "&"
  | .branchNotMask => w.branchMask image i "!&"
  | .otherwise => w.otherwise i
  | .endBranch => w.close i .branch
  | .switch => do
    let (value, w) ← w.expr image i 0
    return w.enter (.switch value)
  | .switchConst => return w.enter (.switch (.int (← i.operand 0).toInt))
  | .arm test => w.arm image i test.symbol [0]
  | .armDefault => w.arm image i "default" []
  | .armRange => w.arm image i "range" [0, 1]
  | .breakSwitch => return w.append .breakSwitch
  | .endSwitch => w.endSwitch i
  | .set | .setFixed => do
    let v ← i.target
    let (value, w) ← w.expr image i 1
    w.set v value
  | .setConst => do
    let v ← i.target
    let value ← i.operand 1
    w.set v (constantExpr value w.scope)
  | .arithmetic op => do
    let v ← i.target
    let (value, w) ← w.expr image i 1
    w.update v op.symbol value
  | .call => w.call image i
  | .exec => w.exec image i .spawn
  | .execWait => w.exec image i .call
  | .thread => return w.enter (.thread false)
  | .childThread => return w.enter (.thread true)
  | .endThread => w.close i .thread
  | .endChildThread => w.close i .childThread

/-- Does an instruction other than the one that finishes a script. -/
def step (w : Walk) (image : Option Overlay) (i : Instruction) : Logged Failure Walk :=
  match i.opcode? with
  | none => .fail (i.failure (.unknownCode i.code))
  | some op =>
    if w.script.awaitsArm && !op.isSwitchPart then .fail (i.failure (.unbalanced .outsideArm))
    else w.perform image i op

/-- The tree and the scope of a script that is finished by an instruction. -/
def finish (w : Walk) (i : Instruction) : Except Failure (Block × Scope) :=
  if w.script.blocks.isEmpty then .ok (w.script.root, w.scope)
  else .error (i.failure (.unbalanced (.unterminated w.script.innermost)))

end Walk

/-- Goes on with the instructions from `next`, the address behind those that have been done. -/
def decodeFrom (image : Option Overlay) (w : Walk) (next : Int) : List Instruction → Logged Failure (Block × Scope)
  | [] => .fail (.decode ⟨.truncated, next⟩)
  | i :: rest =>
    if i.isFinish then w.finish i
    else do decodeFrom image (← w.step image i) (i.address + i.size) rest

/-- The tree of the script in `bytes`, which starts at `address`, and the scope behind it. -/
def decode (image : Option Overlay) (address : Int) (bytes : List UInt8) (scope : Scope) :
    Logged Failure (Block × Scope) :=
  decodeFrom image (.start scope) address (instructions address bytes)

end MapScript
