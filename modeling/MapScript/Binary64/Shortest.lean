import MapScript.Binary64.Basic

/-!
# Shortest decimal text

A finite number other than zero is written with the fewest decimal digits that read back as the same number; among the
decimals with that many digits the nearest one is taken, the even one of two equally near.

The reals that read back as `m * 2 ^ q` form an interval about it, whose ends belong to it if and only if `m` is even.
`shortest` looks for a point of the grid of `n`-digit decimals in it, for `n` from one upwards: if the interval holds a
point of a grid, it holds one of the two neighbours of the number on that grid, so only these are tried.
-/

namespace MapScript.Binary64

/-- An interval of positive reals about `value`, all numbers over the common denominator `den`. -/
structure Interval where
  low : Nat
  value : Nat
  high : Nat
  den : Nat
  closed : Bool

/-- The reals that round to `m * 2 ^ q`; the lower neighbour of a power of two is only half as far. -/
def interval (m : Nat) (q : Int) : Interval :=
  let up := (q - 2).toNat
  let down := if m = 1 <<< 52 ∧ -1074 < q then 1 else 2
  ⟨(4 * m - down) <<< up, (4 * m) <<< up, (4 * m + 2) <<< up, 1 <<< (2 - q).toNat, m % 2 = 0⟩

/-- Whether `num / den` lies in the interval. -/
def Interval.contains (i : Interval) (num den : Nat) : Bool :=
  let x := num * i.den
  if i.closed then i.low * den ≤ x && x ≤ i.high * den else i.low * den < x && x < i.high * den

/-- The multiple of `10 ^ k` in the interval that is nearest to its value, by its coefficient. -/
def Interval.onGrid? (i : Interval) (k : Int) : Option Nat :=
  let up := Nat.pow 10 k.toNat
  let down := Nat.pow 10 (-k).toNat
  let below := i.value * down / (i.den * up)
  let rest := i.value * down - below * (i.den * up)
  match i.contains (below * up) down, i.contains ((below + 1) * up) down with
  | true, true =>
    if 2 * rest < i.den * up ∨ (2 * rest = i.den * up ∧ below % 2 = 0) then some below else some (below + 1)
  | true, false => some below
  | false, true => some (below + 1)
  | false, false => none

/-- The exponent of the first digit of `num / den`. -/
def firstPlace (num den : Nat) : Int :=
  let k : Int := (Nat.toDigits 10 num).length - (Nat.toDigits 10 den).length
  if num * Nat.pow 10 (-k).toNat < den * Nat.pow 10 k.toNat then k - 1 else k

/-- A decimal: its digits, and the exponent of the first of them. -/
structure Decimal where
  digits : List Char
  first : Int

/-- The coefficient `n` of `10 ^ k` without the zeros at its end. -/
def Decimal.ofCoefficient (n : Nat) (k : Int) : Decimal :=
  let ds := Nat.toDigits 10 n
  ⟨(ds.reverse.dropWhile (· == '0')).reverse, k + ds.length - 1⟩

/-- The shortest decimal in the interval; seventeen digits always suffice. -/
def Interval.shortest (i : Interval) : Decimal :=
  let first := firstPlace i.value i.den
  let grids := (List.range 17).map fun (n : Nat) => first - n
  match grids.findSome? fun k => (i.onGrid? k).map (·, k) with
  | some (n, k) => .ofCoefficient n k
  | none => .ofCoefficient i.value 0

/-- Which exponents of the first digit are written in positional notation, and how wide the others are. -/
structure DecimalLayout where
  leastPositional : Int
  greatestPositional : Int
  exponentWidth : Nat

/-- Numbers from `0.0001` up to below `1e16` are positional, an exponent has at least two digits. -/
def layout : DecimalLayout := ⟨-4, 15, 2⟩

/-- Text of a decimal in a layout: a positional number has a digit on both sides of its point. -/
def Decimal.text (d : Decimal) (layout : DecimalLayout) : List Char :=
  if layout.leastPositional ≤ d.first ∧ d.first ≤ layout.greatestPositional then
    if d.first < 0 then '0' :: '.' :: List.replicate (-d.first - 1).toNat '0' ++ d.digits
    else
      let whole := d.first.toNat + 1
      let fraction := d.digits.drop whole
      d.digits.take whole ++ List.replicate (whole - d.digits.length) '0' ++
        '.' :: if fraction.isEmpty then ['0'] else fraction
  else
    let e := Nat.toDigits 10 d.first.natAbs
    d.digits.take 1 ++ (if d.digits.length = 1 then [] else '.' :: d.digits.drop 1) ++
      'e' :: (if d.first < 0 then '-' else '+') :: List.replicate (layout.exponentWidth - e.length) '0' ++ e

/-- Text of a number: the shortest decimal that reads back, a sign also on a negative zero. -/
def text (x : Binary64) : String :=
  let sign := if x.isNegative then "-" else ""
  match x.magnitude with
  | .nan => "nan"
  | .infinite => sign ++ "inf"
  | .finite m q =>
    if m = 0 then sign ++ "0.0"
    else sign ++ String.ofList ((interval m q).shortest.text layout)

example : (ofQuotient 1 10).text = "0.1" ∧ (ofQuotient (-39999) 1024).text = "-39.0615234375" ∧
    (⟨1⟩ : Binary64).text = "5e-324" ∧ (ofDecimal false 1 16).text = "1e+16" ∧
    (ofDecimal false 123 13).text = "1230000000000000.0" ∧ (zero true).text = "-0.0" := by
  decide +kernel

end MapScript.Binary64
