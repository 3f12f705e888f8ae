/-!
# Slices

Positions in a list are integers: one that is not negative counts from the start, a negative one from the end, and a
position beyond either end is moved to it.
-/

namespace MapScript

/-- The number of elements that stand before position `i` in a list of the given length. -/
def position (length : Nat) (i : Int) : Nat := (if i < 0 then length + i else i).toNat

/-- The elements from position `start` to before position `stop`. -/
def slice {α : Type} (xs : List α) (start stop : Int) : List α :=
  (xs.take (position xs.length stop)).drop (position xs.length start)

/-- The elements before position `stop`. -/
def upTo {α : Type} (xs : List α) (stop : Int) : List α := xs.take (position xs.length stop)

@[simp] theorem upTo_natCast {α : Type} (xs : List α) (n : Nat) : upTo xs n = xs.take n := by
  simp [upTo, position, show ¬((n : Int) < 0) by omega]

example : upTo [1, 2, 3] (-1) = [1, 2] ∧ upTo [1, 2, 3] 5 = [1, 2, 3] ∧ upTo [1, 2, 3] (-4) = [] ∧
    slice [1, 2, 3] (-2) 3 = [2, 3] := by
  decide

end MapScript
