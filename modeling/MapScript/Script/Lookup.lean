import MapScript.Scope
import MapScript.Script.Basic

/-!
# Names and types of parts of a script

What the callees and expressions of a script mean in a scope.
-/

namespace MapScript

namespace Callee

/-- The name of a callee; an address has the one that the scope binds it to. -/
def name? (c : Callee) (s : Scope) : Option Text :=
  match c with
  | named name => some name
  | pointer address => s.nameAt? address
  | unknown => none

/-- Only the names of addresses count. -/
theorem name?_congr {s s' : Scope} (h : ∀ address, s'.nameAt? address = s.nameAt? address) (c : Callee) :
    c.name? s' = c.name? s := by
  cases c with
  | pointer address => exact h address
  | _ => rfl

/-- The name and the type of a callee, if both are bound. -/
def lookup? (c : Callee) (s : Scope) : Option (Text × DataType) :=
  (c.name? s).bind fun name => (s.typeOf? name).map (name, ·)

end Callee

/-- The type of an expression: the wildcard for unbound names, an integer for unbound addresses. -/
def Expr.type (e : Expr) (s : Scope) : DataType :=
  match e with
  | identifier name => (s.typeOf? name).getD .any
  | int _ => .int
  | bool _ => .bool
  | float _ => .float
  | pointer address => ((s.nameAt? address).bind s.typeOf?).getD .int
  | comparison .. => .bool

end MapScript
