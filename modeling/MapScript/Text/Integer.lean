import MapScript.Text.Blank
import MapScript.Text.DecimalDigit

/-!
# Integer literals

An integer literal is a sign, which may be absent, and digits: decimal ones, or those of base sixteen, eight or two
behind `0x`, `0o` or `0b`. Single underscores may stand between digits and behind the base mark, blanks around the whole.
Decimal digits may be those of any script. A decimal literal does not start with a zero unless it is zero, and has at
most `maxDecimalDigits` digits.
-/

namespace MapScript

namespace IntegerLiteral

/-- The ASCII character that a code point stands for in a literal, if there is one. -/
def toAscii? (c : CodePoint) : Option Char :=
  if c.toNat < 127 then c.toChar?
  else if isBlank c then some ' '
  else (decimalDigit? c).map Nat.digitChar

/-- Blanks that may surround a literal once it is ASCII. -/
def isMargin (c : Char) : Bool := c = ' ' || 9 ≤ c.toNat && c.toNat ≤ 13

/-- Takes single underscores out from between digits; one that stands elsewhere makes the text no literal. -/
def ungroup? : List Char → Option (List Char)
  | [] => some []
  | '_' :: _ => none
  | [_, '_'] => none
  | c :: '_' :: rest => (ungroup? rest).map (c :: ·)
  | c :: rest => (ungroup? rest).map (c :: ·)

/-- Value of a hexadecimal digit of either case. -/
def digitValue? (c : Char) : Option Nat :=
  if '0' ≤ c ∧ c ≤ '9' then some (c.toNat - '0'.toNat)
  else if 'a' ≤ c ∧ c ≤ 'f' then some (c.toNat - 'a'.toNat + 10)
  else if 'A' ≤ c ∧ c ≤ 'F' then some (c.toNat - 'A'.toNat + 10)
  else none

/-- Digits of a number in `base`, at least one. -/
def digits? (base : Nat) (text : List Char) : Option (List Nat) := do
  let ds ← (← ungroup? text).mapM fun c => (digitValue? c).filter (· < base)
  if ds.isEmpty then none else some ds

def ofDigits (base : Nat) (ds : List Nat) : Nat := ds.foldl (fun n d => n * base + d) 0

/-- Digits behind a base mark, which one underscore may follow. -/
def marked? (base : Nat) : List Char → Option Nat
  | '_' :: rest => (digits? base rest).map (ofDigits base)
  | text => (digits? base text).map (ofDigits base)

def decimal? (text : List Char) : Option Nat := do
  let ds ← digits? 10 text
  let n := ofDigits 10 ds
  if ds.length > maxDecimalDigits || (text.head? == some '0' && n != 0) then none else some n

/-- A literal without sign and margins. -/
def unsigned? (text : List Char) : Option Nat :=
  match text with
  | '0' :: c :: rest =>
    if c = 'x' ∨ c = 'X' then marked? 16 rest
    else if c = 'o' ∨ c = 'O' then marked? 8 rest
    else if c = 'b' ∨ c = 'B' then marked? 2 rest
    else decimal? text
  | _ => decimal? text

end IntegerLiteral

open IntegerLiteral in
/-- The integer that a literal denotes. -/
def integer? (text : Text) : Option Int := do
  let ascii ← text.points.mapM toAscii?
  let body := ((ascii.dropWhile isMargin).reverse.dropWhile isMargin).reverse
  match body with
  | '-' :: rest => (unsigned? rest).map fun n => -(n : Int)
  | '+' :: rest => (unsigned? rest).map Int.ofNat
  | _ => (unsigned? body).map Int.ofNat

end MapScript
