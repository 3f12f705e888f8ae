import MapScript.Options
import MapScript.Script.Lookup

/-!
# Captured arguments

A script that is called receives the local words of its caller without being passed them. Here they are written out: a
call of a script gets one argument for every parameter, the captured words by their names in order. Calls of native
methods have their arguments already; a script call that has some is an inconsistency.
-/

namespace MapScript

/-- The first `count` captured words as arguments. -/
def capturedArguments (o : Options) (count : Nat) : List Expr :=
  (List.range count).map fun (index : Nat) => .identifier (o.captureName index)

mutual

/-- Writes out the captured arguments of a statement. -/
def Stmt.passCaptures (o : Options) (s : Scope) : Stmt → Except Failure Stmt
  | .call callee arguments kind =>
    match callee.lookup? s with
    | some (name, .callable .script parameters) =>
      if arguments.isEmpty then .ok (.call callee (capturedArguments o parameters.length) kind)
      else .error (.inconsistent (.alreadyPassed name arguments.length))
    | _ => .ok (.call callee arguments kind)
  | .branch condition body => return .branch condition (← Block.passCaptures o s body)
  | .branchElse condition body otherwise =>
    return .branchElse condition (← Block.passCaptures o s body) (← Block.passCaptures o s otherwise)
  | .loop count body => return .loop count (← Block.passCaptures o s body)
  | .switch value arms => return .switch value (← Arm.passCaptures o s arms)
  | .thread child body => return .thread child (← Block.passCaptures o s body)
  | statement => .ok statement

/-- Writes out the captured arguments in a block, in the order of its statements. -/
def Block.passCaptures (o : Options) (s : Scope) : List Stmt → Except Failure (List Stmt)
  | [] => .ok []
  | statement :: rest => return (← statement.passCaptures o s) :: (← Block.passCaptures o s rest)

/-- Writes out the captured arguments in the arms of a switch. -/
def Arm.passCaptures (o : Options) (s : Scope) : List Arm → Except Failure (List Arm)
  | [] => .ok []
  | ⟨operator, values, body⟩ :: rest =>
    return ⟨operator, values, ← Block.passCaptures o s body⟩ :: (← Arm.passCaptures o s rest)

end

end MapScript
