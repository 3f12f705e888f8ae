import MapScript.Scope

/-!
# Steps on a scope

What a scope can be asked to do, and what it answers. A step that binds a name answers the type that the name had in the
innermost layer. A step that fails changes nothing, and a run goes on behind it; a run keeps a record of every step with
its answer.
-/

namespace MapScript

inductive ScopeStep
  | push
  | pop
  | bindAddress (address : Int) (name : Text) (type : DataType)
  | bindName (name : Text) (type : DataType)
  | refineName (name : Text) (type : DataType)
  deriving DecidableEq, Repr

inductive ScopeAnswer
  | opened
  /-- The layer that has been closed, none if none was left. -/
  | closed (layer : Option Layer)
  /-- The type that the name had in the innermost layer, none if it was not bound there. -/
  | bound (previous : Option DataType)
  deriving DecidableEq

/-- A step with its answer. -/
structure ScopeRecord where
  step : ScopeStep
  answer : Except Failure ScopeAnswer

namespace Scope

/-- The answer and the scope behind a step that binds a name. -/
def bound (s : Scope) (name : Text) : Except Failure Scope → Except Failure ScopeAnswer × Scope
  | .ok s' => (.ok (.bound (s.currentType? name)), s')
  | .error e => (.error e, s)

/-- Does a step: its answer and the scope behind it. -/
def perform (s : Scope) : ScopeStep → Except Failure ScopeAnswer × Scope
  | .push => (.ok .opened, s.push)
  | .pop =>
    match s.pop? with
    | some (layer, outer) => (.ok (.closed (some layer)), outer)
    | none => (.ok (.closed none), s)
  | .bindAddress address name type => s.bound name (s.bindAddress address name type)
  | .bindName name type => s.bound name (s.bindName name type)
  | .refineName name type => s.bound name (s.refineName name type)

/-- Does steps one behind the other: their records and the scope behind them. -/
def run (s : Scope) : List ScopeStep → List ScopeRecord × Scope
  | [] => ([], s)
  | step :: rest =>
    let (answer, s) := s.perform step
    let (records, s) := s.run rest
    (⟨step, answer⟩ :: records, s)

theorem run_cons (s : Scope) (step : ScopeStep) (rest : List ScopeStep) : s.run (step :: rest)
    = (⟨step, (s.perform step).1⟩ :: ((s.perform step).2.run rest).1, ((s.perform step).2.run rest).2) := rfl

end Scope

end MapScript
