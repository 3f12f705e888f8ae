import MapScript.Text.Hex

/-!
# Options

Choices for the decompilation of a script.
-/

namespace MapScript

/-- What a candidate of unknown type does to a batch of types to commit: end the batch, or be left out of it. -/
inductive CommitPolicy
  | skipRemaining
  | skipOne
  deriving DecidableEq, Repr

def CommitPolicy.word : CommitPolicy → String
  | skipRemaining => "skip-remaining"
  | skipOne => "skip-one"

def CommitPolicy.ofWord? (word : Text) : Option CommitPolicy :=
  [skipRemaining, skipOne].find? fun policy => .ofString policy.word = word

structure Options where
  /-- What the names of captured words start with. -/
  capturePrefix : Text := "FunWord"
  /-- Passes of type inference after which it is given up. -/
  passLimit : Int := 1024
  commitPolicy : CommitPolicy := .skipRemaining
  /-- What a line is indented by for every block around it. -/
  indent : Text := "    "
  deriving DecidableEq

/-- The name under which a script passes its local word `index` on. -/
def Options.captureName (o : Options) (index : Int) : Text := o.capturePrefix ++ "_" ++ Hex.signed index

end MapScript
