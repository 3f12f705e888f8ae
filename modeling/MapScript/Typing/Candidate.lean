import MapScript.Failure
import MapScript.Table

/-!
# Candidate types

While statements are examined, types are proposed for variables: from a use as an argument, from a value given to the
variable, or from the annotation of its declaration. `resolve` merges the concrete candidates of every name into one
type. Candidates that differ are a mismatch, except that a use overrides an annotation, and that a use as truth value
overrides an integer value.
-/

namespace MapScript.Typing

/-- Where a candidate comes from. -/
inductive CandidateSource
  | use
  | value
  | declaration
  deriving DecidableEq, Repr

/-- A type proposed for a name. -/
structure Candidate where
  name : Text
  type : DataType
  source : CandidateSource
  deriving DecidableEq, Repr

/-- Whether a candidate is a use that prevails over another candidate of a different type. -/
def Candidate.overrides (c other : Candidate) : Bool :=
  c.source = .use && other.source ≠ .use &&
    (other.source = .declaration || (c.type = .bool && other.type = .int))

/-- The prevailing one of two candidates of one name and different types. -/
def prevailing (first second : Candidate) : Except Failure Candidate :=
  if first.overrides second then .ok first
  else if second.overrides first then .ok second
  else .error (.mismatch (.used first.name first.type second.type))

/-- Takes a further candidate into account; `chosen` holds the prevailing candidate of every name so far. -/
def choose (chosen : Table Text Candidate) (c : Candidate) : Except Failure (Table Text Candidate) :=
  if c.type.isWildcard then .ok chosen
  else match chosen.get? c.name with
    | none => .ok (chosen.insert c.name c)
    | some existing =>
      match existing.type.unify c.type with
      | some _ => .ok chosen
      | none => return chosen.insert c.name (← prevailing existing c)

/-- The type of every name that has a concrete candidate. -/
def resolve (candidates : List Candidate) : Except Failure (Table Text DataType) := do
  return (← candidates.foldlM choose .empty).mapValues Candidate.type

end MapScript.Typing
