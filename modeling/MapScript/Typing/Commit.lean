import MapScript.Options
import MapScript.Scope
import MapScript.Typing.Candidate

/-!
# Committing types

The candidates of a pass are committed to the innermost layer of the scope in the order in which they were found. A name
that has a concrete type there keeps it, and the resolved type must agree with it. A candidate of unknown type ends the
batch or is left out of it, as the policy says.
-/

namespace MapScript.Typing

/-- Commits candidates one by one, with the types of `resolved`; the number counts the names that get a type. -/
def commitEach (policy : CommitPolicy) (resolved : Table Text DataType) :
    List Candidate → Scope → Except Failure (Nat × Scope)
  | [], s => .ok (0, s)
  | c :: rest, s =>
    if c.type.isWildcard then
      match policy with
      | .skipRemaining => .ok (0, s)
      | .skipOne => commitEach policy resolved rest s
    else
      let type := (resolved.get? c.name).getD c.type
      let current := (s.currentType? c.name).getD .any
      if current.isWildcard then do
        let (count, s) ← commitEach policy resolved rest (← s.refineName c.name type)
        return (count + 1, s)
      else if (current.unify type).isNone then .error (.mismatch (.used c.name current type))
      else commitEach policy resolved rest s

/-- Commits the candidates of a pass, and counts the names that get a type. -/
def commit (policy : CommitPolicy) (candidates : List Candidate) (s : Scope) : Except Failure (Nat × Scope) := do
  commitEach policy (← resolve candidates) candidates s

end MapScript.Typing
