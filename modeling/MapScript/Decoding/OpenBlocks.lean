import MapScript.Failure
import MapScript.Script.Basic

/-!
# Open blocks

While a script is read, the blocks that it has opened and not closed yet lie one inside the other. An open block knows
what opened it and the statements read so far; closing it makes one statement of the block around it.

An arm has no closing instruction of its own: it ends where the next arm starts or its switch ends. So a switch is open
in one of two ways, before its first arm and within an arm, and no arm is open outside a switch.
-/

namespace MapScript

/-- What has opened a block. -/
inductive Opener
  | loop (count : Option Expr)
  | branch (condition : Expr)
  /-- The second block of a branch, behind its first one. -/
  | otherwise (condition : Expr) (body : Block)
  /-- A switch before its first arm. -/
  | switch (value : Expr)
  /-- An arm of a switch, behind the arms before it. -/
  | arm (value : Expr) (arms : List Arm) (operator : String) (values : List Expr)
  | thread (child : Bool)

def Opener.kind : Opener → BlockKind
  | loop _ => .loop
  | branch _ | otherwise _ _ => .branch
  | switch _ => .switch
  | arm .. => .arm
  | thread false => .thread
  | thread true => .childThread

/-- The statement that a block is when it is closed; closing an arm here closes its switch. -/
def Opener.close (body : Block) : Opener → Stmt
  | loop count => .loop count body
  | branch condition => .branch condition body
  | otherwise condition first => .branchElse condition first body
  | switch value => .switch value []
  | arm value arms operator values => .switch value (arms ++ [⟨operator, values, body⟩])
  | thread child => .thread child body

/-- A block that is open, and its statements so far. -/
structure OpenBlock where
  opener : Opener
  body : Block

/-- A script that is read up to some instruction: its statements outside all open blocks, and these, the innermost
first. -/
structure OpenScript where
  root : Block
  blocks : List OpenBlock

namespace OpenScript

def empty : OpenScript := ⟨[], []⟩

/-- The kind of the innermost open block. -/
def innermost (o : OpenScript) : BlockKind :=
  match o.blocks with
  | [] => .root
  | b :: _ => b.opener.kind

/-- Adds a statement to the innermost open block. -/
def append (o : OpenScript) (s : Stmt) : OpenScript :=
  match o.blocks with
  | [] => { o with root := o.root ++ [s] }
  | b :: outer => { o with blocks := { b with body := b.body ++ [s] } :: outer }

/-- Opens a block in the innermost open one. -/
def enter (o : OpenScript) (opener : Opener) : OpenScript := { o with blocks := ⟨opener, []⟩ :: o.blocks }

/-- Closes the innermost block if it is of this kind. -/
def close? (o : OpenScript) (kind : BlockKind) : Option OpenScript :=
  match o.blocks with
  | b :: outer => if b.opener.kind = kind then some ({ o with blocks := outer }.append (b.opener.close b.body)) else none
  | [] => none

/-- Goes on to the second block of the innermost branch. -/
def otherwise? (o : OpenScript) : Option OpenScript :=
  match o.blocks with
  | ⟨.branch condition, body⟩ :: outer => some ⟨o.root, ⟨.otherwise condition body, []⟩ :: outer⟩
  | _ => none

/-- Closes the innermost switch together with its open arm. -/
def endSwitch? (o : OpenScript) : Option OpenScript := (o.close? .arm).or (o.close? .switch)

/-- The value and the arms of the innermost switch, with its open arm closed, and the script around it. -/
def switch? (o : OpenScript) : Option (Expr × List Arm × OpenScript) :=
  match o.blocks with
  | ⟨.switch value, _⟩ :: outer => some (value, [], ⟨o.root, outer⟩)
  | ⟨.arm value arms operator values, body⟩ :: outer =>
    some (value, arms ++ [⟨operator, values, body⟩], ⟨o.root, outer⟩)
  | _ => none

/-- Whether a statement would stand in a switch and in none of its arms. -/
def awaitsArm (o : OpenScript) : Bool := o.innermost = .switch

end OpenScript

end MapScript
