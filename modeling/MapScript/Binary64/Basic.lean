/-!
# Double precision numbers

Numbers of the IEEE 754 format binary64, held as their bits, so that two of them are equal exactly when they are the
same datum: zeros differ by their sign and a NaN equals itself. Rounding a quotient of natural numbers goes to the
nearest representable number, ties to the one with an even significand.
-/

namespace MapScript

/-- A double precision number by its bits. -/
structure Binary64 where
  bits : UInt64
  deriving DecidableEq, Inhabited

namespace Binary64

/-- What a number is apart from its sign; a finite one is `significand * 2 ^ exponent`. -/
inductive Magnitude
  | nan
  | infinite
  | finite (significand : Nat) (exponent : Int)
  deriving DecidableEq

def isNegative (x : Binary64) : Bool := x.bits.toNat >>> 63 = 1

def magnitude (x : Binary64) : Magnitude :=
  let biased : Nat := x.bits.toNat >>> 52 % 2048
  let fraction : Nat := x.bits.toNat % (1 <<< 52)
  if biased = 2047 then if fraction = 0 then .infinite else .nan
  else if biased = 0 then .finite fraction (-1074)
  else .finite (fraction + 1 <<< 52) ((biased : Int) - 1075)

def isZero (x : Binary64) : Bool := x.bits.toNat % (1 <<< 63) = 0

def ofParts (negative : Bool) (rest : Nat) : Binary64 :=
  ⟨UInt64.ofNat (rest + if negative then 1 <<< 63 else 0)⟩

def infinity (negative : Bool) : Binary64 := ofParts negative (2047 <<< 52)

def zero (negative : Bool) : Binary64 := ofParts negative 0

def nan : Binary64 := ofParts false (2047 <<< 52 + 1 <<< 51)

/-- The integer nearest to `num / den`, the even one of two. -/
def roundDiv (num den : Nat) : Nat :=
  let q := num / den
  let r := num % den
  if den < 2 * r ∨ (2 * r = den ∧ q % 2 = 1) then q + 1 else q

/-- The exponent of the last place of the number nearest to `num / den`. -/
def lastPlace (num den : Nat) : Int :=
  let k : Int := Nat.log2 num - Nat.log2 den
  let floor : Int := if num <<< (-k).toNat < den <<< k.toNat then k - 1 else k
  max (floor - 52) (-1074)

/-- The number nearest to `num / den`, infinity from halfway above the greatest finite one. -/
def ofRatio (negative : Bool) (num den : Nat) : Binary64 :=
  if num = 0 then zero negative
  else
    let e := lastPlace num den
    let m := roundDiv (num <<< (-e).toNat) (den <<< e.toNat)
    let rest := (e + 1074).toNat <<< 52 + m
    if 2047 <<< 52 ≤ rest then infinity negative else ofParts negative rest

/-- The number nearest to `digits * 10 ^ exponent`. -/
def ofDecimal (negative : Bool) (digits : Nat) (exponent : Int) : Binary64 :=
  let places : Int := (Nat.toDigits 10 digits).length + exponent
  if digits = 0 ∨ places < -330 then zero negative
  else if 310 < places then infinity negative
  else ofRatio negative (digits * Nat.pow 10 exponent.toNat) (Nat.pow 10 (-exponent).toNat)

/-- The quotient of an integer and a positive natural number. -/
def ofQuotient (num : Int) (den : Nat) : Binary64 := ofRatio (num < 0) num.natAbs den

example : (ofQuotient 1 1).bits = 0x3ff0000000000000 ∧ (ofQuotient (-3) 2).bits = 0xbff8000000000000 ∧
    (ofDecimal false 1 (-1)).bits = 0x3fb999999999999a ∧ (ofDecimal false 5 (-324)).bits = 1 := by
  decide +kernel

end Binary64

end MapScript
