import MapScript.Text.Basic

/-!
# Signed hexadecimal text

Integers in base sixteen. A negative number is its sign and the digits of its absolute value, never a complement;
padding puts zeros between the sign and the digits, and the width counts the sign.
-/

namespace MapScript.Hex

/-- Upper-case digits of a natural number, most significant first. -/
def digits (n : Nat) : List Char := (Nat.toDigits 16 n).map Char.toUpper

def sign (n : Int) : List Char := if n < 0 then ['-'] else []

/-- Sign and upper-case digits. -/
def signed (n : Int) : Text := .ofChars (sign n ++ digits n.natAbs)

/-- Sign and upper-case digits, with zeros between them up to `width` characters. -/
def padded (width : Nat) (n : Int) : Text :=
  let ds := digits n.natAbs
  .ofChars (sign n ++ List.replicate (width - (sign n).length - ds.length) '0' ++ ds)

/-- Eight places behind the mark `0x`, the form of addresses. -/
def address (n : Int) : Text := "0x" ++ padded 8 n

/-- Two places behind the mark `0x`, the form of operation codes. -/
def code (n : Int) : Text := "0x" ++ padded 2 n

/-- Sign, the mark `0x` and lower-case digits, the form of sizes. -/
def size (n : Int) : Text := .ofChars (sign n ++ ['0', 'x'] ++ Nat.toDigits 16 n.natAbs)

example : signed (-10) = "-A" ∧ padded 8 (-1) = "-0000001" ∧ address 0x80240000 = "0x80240000" ∧
    size (-1) = "-0x1" := by
  decide

end MapScript.Hex
