import MapScript.Script.Lookup
import MapScript.Typing.Candidate

/-!
# Typing rules of statements

What a single statement says about the types of variables, and how it changes when they are known. A declaration
takes over the type of its name. An integer literal becomes a truth value, true if it is one, where a truth value is
meant: as the value of a variable of that type or as an argument for such a parameter.
-/

namespace MapScript

/-- An integer literal as a truth value; other expressions stay as they are. -/
def Expr.asBool : Expr → Expr
  | int value => .bool (value = 1)
  | e => e

namespace Typing

/-- The rule of declarations: a known type is taken over and must agree with the annotation; else the annotation or the
value proposes one. -/
def examineDeclaration (s : Scope) (type : DataType) (name : Text) (value : Option Expr) :
    Except Failure (Stmt × List Candidate) :=
  let known := (s.currentType? name).getD .any
  if known.isWildcard then
    let candidate : Candidate :=
      if type.isWildcard then ⟨name, (value.map (·.type s)).getD .any, .value⟩ else ⟨name, type, .declaration⟩
    .ok (.declare type name value, [candidate])
  else if type.isWildcard ∨ type = known then
    .ok (.declare known name (if known.isBool then value.map Expr.asBool else value), [])
  else .error (.mismatch (.declared name type known))

/-- The rule of assignments: the value proposes a type for a variable of unknown type. -/
def examineAssignment (s : Scope) (name : Text) (operator : String) (value : Expr) : Stmt × List Candidate :=
  match s.typeOf? name with
  | some .any => (.assign name operator value, [⟨name, value.type s, .value⟩])
  | some .bool => (.assign name operator (if operator = "=" then value.asBool else value), [])
  | _ => (.assign name operator value, [])

/-- Arguments with integer literals as truth values where the parameter is one. -/
def coerceArguments : List DataType → List Expr → List Expr
  | p :: ps, e :: es => (if p.isBool then e.asBool else e) :: coerceArguments ps es
  | _, es => es

/-- The type that a parameter proposes for its argument. -/
def useOf? (s : Scope) (parameter : DataType) : Expr → Option Candidate
  | .identifier name => if s.typeOf? name = some .any then some ⟨name, parameter, .use⟩ else none
  | _ => none

/-- The rule of calls: parameters propose types for variables of unknown type. -/
def examineCall (s : Scope) (callee : Callee) (arguments : List Expr) (kind : CallKind) : Stmt × List Candidate :=
  match callee.lookup? s with
  | some (_, .callable _ parameters) =>
    (.call callee (coerceArguments parameters arguments) kind,
      (parameters.zip arguments).filterMap fun (p, e) => useOf? s p e)
  | _ => (.call callee arguments kind, [])

/-- The statement as the types known in `s` make it, and the candidates that it proposes in order. -/
def examine (s : Scope) : Stmt → Except Failure (Stmt × List Candidate)
  | .declare type name value => examineDeclaration s type name value
  | .assign name operator value => .ok (examineAssignment s name operator value)
  | .call callee arguments kind => .ok (examineCall s callee arguments kind)
  | statement => .ok (statement, [])

end Typing

end MapScript
