import MapScript.Logged
import MapScript.Typing.Commit
import MapScript.Typing.Rules

/-!
# Type inference

Types are learnt backwards: a pass goes through the statements of a block from the last to the first, so that a use is
seen before the declaration it tells about. The blocks inside a statement are settled when the pass comes by. At the end
of the pass its candidates are committed; passes go on until one commits nothing, up to a limit.

Types of a block that lies in another are thus committed in the middle of a pass over the outer one, into the same scope.
-/

namespace MapScript.Typing

variable (inner : Block → Scope → Logged Failure (Block × Scope))

/-- Settles the blocks in the arms of a switch in order. -/
def settleArms : List Arm → Scope → Logged Failure (List Arm × Scope)
  | [], s => return ([], s)
  | ⟨operator, values, body⟩ :: rest, s => do
    let (body, s) ← inner body s
    let (rest, s) ← settleArms rest s
    return (⟨operator, values, body⟩ :: rest, s)

/-- Settles the blocks inside a statement in order. -/
def settleInside : Stmt → Scope → Logged Failure (Stmt × Scope)
  | .branch condition body, s => do
    let (body, s) ← inner body s
    return (.branch condition body, s)
  | .branchElse condition body otherwise, s => do
    let (body, s) ← inner body s
    let (otherwise, s) ← inner otherwise s
    return (.branchElse condition body otherwise, s)
  | .loop count body, s => do
    let (body, s) ← inner body s
    return (.loop count body, s)
  | .switch value arms, s => do
    let (arms, s) ← settleArms inner arms s
    return (.switch value arms, s)
  | .thread child body, s => do
    let (body, s) ← inner body s
    return (.thread child body, s)
  | statement, s => return (statement, s)

/-- Goes through a block from its last statement to its first; the candidates stand in the order of finding. -/
def pass : Block → Scope → Logged Failure (Block × Scope × List Candidate)
  | [], s => return ([], s, [])
  | statement :: rest, s => do
    let (rest, s, found) ← pass rest s
    let (statement, proposed) ← examine s statement
    let (statement, s) ← settleInside inner statement s
    return (statement :: rest, s, found ++ proposed)

/-- A pass and the commit of its candidates. -/
def round (policy : CommitPolicy) (b : Block) (s : Scope) : Logged Failure (Nat × Block × Scope) := do
  let (b, s, candidates) ← pass inner b s
  let (committed, s) ← commit policy candidates s
  return (committed, b, s)

/-- Repeats rounds until one commits nothing, `remaining` times at most; `done` have been done before. -/
def settle (o : Options) (done : Nat) : Nat → Block → Scope → Logged Failure (Nat × Block × Scope)
  | 0, _, _ => .fail (.unsettled o.passLimit)
  | remaining + 1, b, s => do
    let (committed, b, s) ← round inner o.commitPolicy b s
    .report (.passDone (done + 1) committed)
    if committed = 0 then return (done + 1, b, s)
    settle o (done + 1) remaining b s

/-- Infers the types of a block with at most `depth` blocks inside each other. -/
def inferWithin (o : Options) : Nat → Block → Scope → Logged Failure (Nat × Block × Scope)
  | 0 => settle (fun b s => return (b, s)) o 0 o.passLimit.toNat
  | depth + 1 =>
    settle (fun b s => do return (← inferWithin o depth b s).2) o 0 o.passLimit.toNat

/-- Infers the types of a block: the number of passes, the block and the scope. -/
def infer (o : Options) (b : Block) (s : Scope) : Logged Failure (Nat × Block × Scope) :=
  inferWithin o (Block.depth b) b s

end MapScript.Typing
