import MapScript.Text.Basic

/-!
# Ranges of code points

A property of code points is given by the closed ranges of those that have it.
-/

namespace MapScript

/-- Whether `c` lies in one of the closed `ranges`. -/
def inRanges (ranges : List (Nat × Nat)) (c : CodePoint) : Bool :=
  ranges.any fun range => range.1 ≤ c.toNat && c.toNat ≤ range.2

end MapScript
