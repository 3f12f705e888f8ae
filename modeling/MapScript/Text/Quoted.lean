import MapScript.Text.Printable

/-!
# Quoted text

A quoted text stands between single quotes, or between double quotes when it holds a single quote and no double one.
The backslash, the chosen quote, tabulator, line feed and carriage return are written with a backslash in front; every
other code point that is not printable is written by its number in lower-case hexadecimal digits. So a quoted text
consists of characters, whatever the text does.
-/

namespace MapScript.Quoted

/-- Lower-case hexadecimal digits of `n`, at least `width` of them. -/
def hexDigits (width n : Nat) : List Char :=
  let ds := Nat.toDigits 16 n
  List.replicate (width - ds.length) '0' ++ ds

/-- The written form of one character of a text between two `quote`s. -/
def escapeChar (quote c : Char) : List Char :=
  if c = quote ∨ c = '\\' then ['\\', c]
  else if c = '\t' then ['\\', 't']
  else if c = '\n' then ['\\', 'n']
  else if c = '\r' then ['\\', 'r']
  else if isPrintable c then [c]
  else if c.toNat < 0x100 then ['\\', 'x'] ++ hexDigits 2 c.toNat
  else if c.toNat < 0x10000 then ['\\', 'u'] ++ hexDigits 4 c.toNat
  else ['\\', 'U'] ++ hexDigits 8 c.toNat

/-- The written form of one code point of a text between two `quote`s. -/
def escape (quote : Char) : CodePoint → List Char
  | .char c => escapeChar quote c
  | .surrogate n => ['\\', 'u'] ++ hexDigits 4 (0xD800 + n)

def quoteFor (text : List CodePoint) : Char :=
  if text.contains (.char '\'') && !text.contains (.char '"') then '"' else '\''

/-- The quoted form of a text. -/
def encode (text : List CodePoint) : List Char :=
  let quote := quoteFor text
  quote :: text.flatMap (escape quote) ++ [quote]

end Quoted

/-- The quoted form of `text`. -/
def quoted (text : Text) : String := String.ofList (Quoted.encode text.points)

example : quoted "it's\n" = "\"it's\\n\"" ∧ quoted ⟨[.surrogate 0x3d]⟩ = "'\\ud83d'" := by decide +kernel

end MapScript
