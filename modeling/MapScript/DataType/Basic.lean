/-!
# Data types

Types of script variables. The wildcard stands for a type that is not known yet. Callables carry their parameter types:
a script receives the local words of its caller, a native method the arguments that are written at the call.

Two observations of one variable are joined by `unify`, in which the wildcard yields to everything.
-/

namespace MapScript

/-- How a callable receives its arguments. -/
inductive Convention
  | script
  | native
  deriving DecidableEq, Repr

inductive DataType
  | any
  | bool
  | int
  | float
  | callable (convention : Convention) (parameters : List DataType)
  deriving Repr, Inhabited

namespace DataType

mutual

private def decEq : (s t : DataType) → Decidable (s = t)
  | .any, .any | .bool, .bool | .int, .int | .float, .float => isTrue rfl
  | .callable c ps, .callable d qs =>
    if hc : c = d then
      match decEqList ps qs with
      | isTrue h => isTrue (by rw [hc, h])
      | isFalse h => isFalse (by simp [h])
    else isFalse (by simp [hc])
  | .any, .bool | .any, .int | .any, .float | .any, .callable _ _ | .bool, .any | .bool, .int | .bool, .float
  | .bool, .callable _ _ | .int, .any | .int, .bool | .int, .float | .int, .callable _ _ | .float, .any
  | .float, .bool | .float, .int | .float, .callable _ _ | .callable _ _, .any | .callable _ _, .bool
  | .callable _ _, .int | .callable _ _, .float => isFalse nofun

private def decEqList : (ss ts : List DataType) → Decidable (ss = ts)
  | [], [] => isTrue rfl
  | [], _ :: _ => isFalse nofun
  | _ :: _, [] => isFalse nofun
  | s :: ss, t :: ts =>
    match decEq s t, decEqList ss ts with
    | isTrue h, isTrue hs => isTrue (by rw [h, hs])
    | isFalse h, _ => isFalse (by simp [h])
    | _, isFalse hs => isFalse (by simp [hs])

end

instance : DecidableEq DataType := decEq

/-- The type of a script with these parameters. -/
def script (parameters : List DataType) : DataType := .callable .script parameters

/-- The type of a native method with these parameters. -/
def native (parameters : List DataType) : DataType := .callable .native parameters

def isWildcard : DataType → Bool
  | .any => true
  | _ => false

def isBool : DataType → Bool
  | .bool => true
  | _ => false

def isCallable : DataType → Bool
  | .callable _ _ => true
  | _ => false

/-- Parameter types of a callable, none for other types. -/
def parameters : DataType → List DataType
  | .callable _ ps => ps
  | _ => []

/-- The common type of two observations: a wildcard yields, and two concrete types agree only when they are equal. -/
def unify (first second : DataType) : Option DataType :=
  if first.isWildcard then some second
  else if second.isWildcard ∨ first = second then some first
  else none

@[simp] theorem isWildcard_iff {t : DataType} : t.isWildcard = true ↔ t = .any := by
  cases t <;> simp [isWildcard]

@[simp] theorem isBool_iff {t : DataType} : t.isBool = true ↔ t = .bool := by
  cases t <;> simp [isBool]

/-- Two types fail to unify when both are concrete and they differ. -/
theorem unify_eq_none_iff {s t : DataType} : s.unify t = none ↔ s ≠ .any ∧ t ≠ .any ∧ s ≠ t := by
  simp only [unify, isWildcard_iff]
  by_cases hs : s = .any <;> by_cases ht : t = .any <;> by_cases h : s = t <;> simp [hs, ht, h]

theorem unify_self (t : DataType) : t.unify t = some t := by
  simp only [unify]; split <;> simp

end DataType

end MapScript
