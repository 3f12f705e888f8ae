import MapScript.Binary64.Shortest
import MapScript.Layout.Page
import MapScript.Script.Lookup

/-!
# Written form of scripts

A simple statement is one line; a statement with blocks is a header, its blocks one level deeper and a closing brace. The
only trees without a written form are those with a callee that has neither name nor address, a range arm without exactly
two values, a comparing arm without a value, or a decimal number that is too long.
-/

namespace MapScript

/-- The name of an address where it stands as a value, or the address itself when the name is empty or missing. -/
def pointerText (address : Int) (s : Scope) : Text :=
  match s.nameAt? address with
  | some name => if name.isEmpty then Hex.address address else name
  | none => Hex.address address

namespace Expr

/-- Written form of an expression. -/
def text (s : Scope) : Expr → Except Failure Text
  | identifier name => .ok name
  | int value => decimalText value
  | bool true => .ok "true"
  | bool false => .ok "false"
  | float value => .ok value.text
  | pointer address => .ok (pointerText address s)
  | comparison lhs operator rhs => do
    let lhs ← lhs.text s
    let rhs ← rhs.text s
    return if operator = "!&" then "!(" ++ lhs ++ " & " ++ rhs ++ ")" else lhs ++ " " ++ operator ++ " " ++ rhs

end Expr

/-- Written form of a callee. -/
def Callee.text (c : Callee) (s : Scope) : Except Failure Text :=
  match c.name? s, c with
  | some name, _ => .ok name
  | none, pointer address => .ok (Hex.address address)
  | none, _ => .error (.print .namelessCallee)

/-- Texts of expressions with commas between them. -/
def Expr.listText (s : Scope) (es : List Expr) : Except Failure Text := do
  return .intercalate ", " (← es.mapM (·.text s))

/-- The header of an arm with this operator and these values; that a range has too many is seen when three of them are
written. -/
def armHeader (operator : String) (values : List Expr) (s : Scope) : Except Failure Text :=
  if operator = "default" then .ok "default"
  else if operator = "range" then do
    match ← (values.take 3).mapM (·.text s) with
    | [low, high] => return "case " ++ low ++ ".." ++ high
    | _ => .error (.print .rangeBounds)
  else match values with
    | value :: _ => return "case " ++ operator ++ " " ++ (← value.text s)
    | [] => .error (.print .missingValue)

/-- The line of a declaration; an unknown type is left out. -/
def declarationText (type : DataType) (name : Text) (value : Option Expr) (s : Scope) : Except Failure Text :=
  let annotation : Text := if type.isWildcard then "" else ": " ++ type.text
  let declared : Text := "var " ++ name ++ annotation
  match value with
  | some e => return declared ++ " = " ++ (← e.text s)
  | none => .ok declared

mutual

/-- Writes a statement to a page. -/
def Stmt.print (s : Scope) (page : Page) : Stmt → Except Failure Page
  | .declare type name value => return page.line (← declarationText type name value s)
  | .assign name operator value => return page.line (name ++ " " ++ operator ++ " " ++ (← value.text s))
  | .call callee arguments kind => do
    let arguments ← Expr.listText s arguments
    let callee ← callee.text s
    let spawn := if kind = .spawn then "spawn " else ""
    return page.line (spawn ++ callee ++ "(" ++ arguments ++ ")")
  | .ret => .ok (page.line "return")
  | .breakLoop | .breakSwitch => .ok (page.line "break")
  | .label index => return page.line ("label " ++ (← decimalText index))
  | .goto index => return page.line ("goto " ++ (← decimalText index))
  | .wait amount seconds => do
    let unit := if seconds then " secs" else ""
    return page.line ("wait " ++ (← amount.text s) ++ unit)
  | .branch condition body => do
    let condition ← condition.text s
    let page ← (page.line ("if " ++ condition ++ " \x7b")).nested fun page => Block.print s page body
    return page.line "\x7d"
  | .branchElse condition body otherwise => do
    let condition ← condition.text s
    let page ← (page.line ("if " ++ condition ++ " \x7b")).nested fun page => Block.print s page body
    let page ← (page.line "\x7d else \x7b").nested fun page => Block.print s page otherwise
    return page.line "\x7d"
  | .loop none body => do
    let page ← (page.line "loop \x7b").nested fun page => Block.print s page body
    return page.line "\x7d"
  | .loop (some count) body => do
    let count ← count.text s
    let page ← (page.line ("loop " ++ count ++ " \x7b")).nested fun page => Block.print s page body
    return page.line "\x7d"
  | .switch value arms => do
    let value ← value.text s
    let page ← (page.line ("switch " ++ value ++ " \x7b")).nested fun page => Arm.print s page arms
    return page.line "\x7d"
  | .thread child body => do
    let header := if child then "child thread \x7b" else "thread \x7b"
    let page ← (page.line header).nested fun page => Block.print s page body
    return page.line "\x7d"

/-- Writes the statements of a block one behind the other. -/
def Block.print (s : Scope) (page : Page) : List Stmt → Except Failure Page
  | [] => .ok page
  | statement :: rest => do Block.print s (← statement.print s page) rest

/-- Writes the arms of a switch one behind the other. -/
def Arm.print (s : Scope) (page : Page) : List Arm → Except Failure Page
  | [] => .ok page
  | ⟨operator, values, body⟩ :: rest => do
    let header ← armHeader operator values s
    let page ← (page.line (header ++ " \x7b")).nested fun page => Block.print s page body
    Arm.print s (page.line "\x7d") rest

end

/-- A script with its name and the parameters it declares. -/
structure ScriptDeclaration where
  name : Callee
  parameters : List (Text × DataType)
  body : Block

namespace ScriptDeclaration

/-- The text of a declaration, indented by `unit`. -/
def text (d : ScriptDeclaration) (s : Scope) (unit : Text) : Except Failure Text := do
  let name ← d.name.text s
  let parameters := Text.intercalate ", " (d.parameters.map fun p => p.1 ++ ": " ++ p.2.text)
  let page := (Page.blank unit).line ("fun " ++ name ++ "(" ++ parameters ++ ") \x7b")
  let page ← page.nested fun page => Block.print s page d.body
  return (page.line "\x7d").text

/-- The texts of declarations with an empty line between them. -/
def listText (ds : List ScriptDeclaration) (s : Scope) (unit : Text) : Except Failure Text := do
  return .intercalate "\n" (← ds.mapM fun d => d.text s unit)

end ScriptDeclaration

end MapScript
