import MapScript.Json.Basic
import MapScript.Text.Integer

/-!
# Reading JSON text

A reader of RFC 8259 that also knows the numbers `NaN`, `Infinity` and `-Infinity`, refuses a byte order mark and bounds
the digits of integers. Of two fields with one key the later value counts, at the place of the earlier one. The escapes
of both halves of a surrogate pair are one character; that of a half alone is a surrogate.

Every function takes the text from some point on and gives back what is left of it. `value` is bounded by its first
argument, which is greater than the number of values inside each other.
-/

namespace MapScript

inductive JsonError
  /-- The text is no JSON. -/
  | malformed
  /-- An integer has more digits than are read. -/
  | tooManyDigits (count : Nat)
  deriving DecidableEq, Repr

def JsonError.message? : JsonError → Option Text
  | malformed => none
  | tooManyDigits count =>
    some ("Exceeds the limit (" ++ .ofNat maxDecimalDigits ++ " digits) for integer string conversion: value has " ++
      .ofNat count ++ " digits; use sys.set_int_max_str_digits() to increase the limit")

namespace JsonReader

def isSpace (c : Char) : Bool := c = ' ' || c = '\t' || c = '\n' || c = '\r'

def skipSpace (text : List Char) : List Char := text.dropWhile isSpace

/-- Code of four hexadecimal digits. -/
def hexCode? : List Char → Option (Nat × List Char)
  | a :: b :: c :: d :: rest => do
    let ds ← [a, b, c, d].mapM IntegerLiteral.digitValue?
    return (IntegerLiteral.ofDigits 16 ds, rest)
  | _ => none

def isHighSurrogate (n : Nat) : Bool := 0xD800 ≤ n && n < 0xDC00

def isLowSurrogate (n : Nat) : Bool := 0xDC00 ≤ n && n < 0xE000

/-- The code point of four digits. -/
def pointOfCode (n : Nat) : CodePoint :=
  if isHighSurrogate n || isLowSurrogate n then .surrogate (Fin.ofNat 0x800 (n - 0xD800)) else .char (Char.ofNat n)

/-- The code point behind an escape `\u`; two escapes of a surrogate pair are one. -/
def unicodeEscape? (text : List Char) : Option (CodePoint × List Char) := do
  let (high, rest) ← hexCode? text
  if isHighSurrogate high then
    if let '\\' :: 'u' :: more := rest then
      if let some (low, rest) := hexCode? more then
        if isLowSurrogate low then
          return (.char (Char.ofNat (0x10000 + (high - 0xD800) * 0x400 + (low - 0xDC00))), rest)
  return (pointOfCode high, rest)

/-- The character of a one-letter escape. -/
def simpleEscape? : Char → Option Char
  | '"' => some '"'
  | '\\' => some '\\'
  | '/' => some '/'
  | 'b' => some '\x08'
  | 'f' => some '\x0c'
  | 'n' => some '\n'
  | 'r' => some '\r'
  | 't' => some '\t'
  | _ => none

/-- The code points up to the closing quote; `fuel` is at least the length of the text. -/
def stringRest : Nat → List Char → Except JsonError (List CodePoint × List Char)
  | 0, _ | _, [] => .error .malformed
  | fuel + 1, c :: rest =>
    if c = '"' then .ok ([], rest)
    else if c.toNat < 0x20 then .error .malformed
    else if c = '\\' then
      match rest with
      | 'u' :: code => do
        let some (c, rest) := unicodeEscape? code | .error .malformed
        let (cs, rest) ← stringRest fuel rest
        return (c :: cs, rest)
      | letter :: rest => do
        let some c := simpleEscape? letter | .error .malformed
        let (cs, rest) ← stringRest fuel rest
        return (.char c :: cs, rest)
      | [] => .error .malformed
    else do
      let (cs, rest) ← stringRest fuel rest
      return (.char c :: cs, rest)

/-- A string behind its opening quote. -/
def string (text : List Char) : Except JsonError (Text × List Char) := do
  let (cs, rest) ← stringRest text.length text
  return (⟨cs⟩, rest)

/-- The longest run of digits, and what is behind it. -/
def digits (text : List Char) : List Char × List Char := text.span Char.isDigit

def natOfDigits (ds : List Char) : Nat := IntegerLiteral.ofDigits 10 (ds.map fun c => c.toNat - '0'.toNat)

/-- A fraction: a point and at least one digit. -/
def fraction? : List Char → Option (List Char × List Char)
  | '.' :: rest =>
    let (ds, rest) := digits rest
    if ds.isEmpty then none else some (ds, rest)
  | _ => none

/-- An exponent: its letter, a sign that may be absent, and at least one digit. -/
def exponent? : List Char → Option (Int × List Char)
  | c :: rest =>
    if c = 'e' || c = 'E' then
      let (negative, rest) := match rest with
        | '-' :: rest => (true, rest)
        | '+' :: rest => (false, rest)
        | rest => (false, rest)
      let (ds, rest) := digits rest
      if ds.isEmpty then none
      else some (if negative then -(natOfDigits ds : Int) else natOfDigits ds, rest)
    else none
  | [] => none

/-- The digits of the whole part of a number: a single zero, or digits of which the first is none. -/
def wholePart? : List Char → Option (List Char × List Char)
  | '0' :: rest => some (['0'], rest)
  | text =>
    let (ds, rest) := digits text
    if ds.isEmpty then none else some (ds, rest)

/-- A number behind its sign. -/
def number (negative : Bool) (text : List Char) : Except JsonError (Json × List Char) := do
  let some (whole, rest) := wholePart? text | .error .malformed
  let fraction := fraction? rest
  let (places, rest) := fraction.getD ([], rest)
  let exponent := exponent? rest
  let (power, rest) := exponent.getD (0, rest)
  if fraction.isNone && exponent.isNone then
    if whole.length > maxDecimalDigits then .error (.tooManyDigits whole.length)
    else return (.int (if negative then -(natOfDigits whole : Int) else natOfDigits whole), rest)
  else
    return (.float (.ofDecimal negative (natOfDigits (whole ++ places)) (power - places.length)), rest)

/-- Words that stand for values. -/
def words : List (List Char × Json) :=
  [("null".toList, .null), ("true".toList, .bool true), ("false".toList, .bool false), ("NaN".toList, .float .nan),
    ("Infinity".toList, .float (.infinity false)), ("-Infinity".toList, .float (.infinity true))]

/-- A value that is one word. -/
def word? (text : List Char) : Option (Json × List Char) :=
  words.findSome? fun (word, value) =>
    if word.isPrefixOf text then some (value, text.drop word.length) else none

/-- A word or a number. -/
def scalar (text : List Char) : Except JsonError (Json × List Char) :=
  match word? text, text with
  | some reading, _ => .ok reading
  | none, '-' :: rest => number true rest
  | none, _ => number false text

/-- Items of an array up to its closing bracket, from the first one on. -/
def items (value : List Char → Except JsonError (Json × List Char)) :
    Nat → List Char → Except JsonError (List Json × List Char)
  | 0, _ => .error .malformed
  | fuel + 1, text => do
    let (item, rest) ← value text
    match skipSpace rest with
    | ',' :: rest => do
      let (others, rest) ← items value fuel (skipSpace rest)
      return (item :: others, rest)
    | ']' :: rest => return ([item], rest)
    | _ => .error .malformed

/-- Fields of an object up to its closing brace, from the first one on, behind the fields that have been read. -/
def fields (value : List Char → Except JsonError (Json × List Char)) :
    Nat → List (Text × Json) → List Char →
      Except JsonError (List (Text × Json) × List Char)
  | fuel + 1, before, '"' :: text => do
    let (key, rest) ← string text
    let ':' :: rest := skipSpace rest | .error .malformed
    let (field, rest) ← value (skipSpace rest)
    let before := Entries.insert key field before
    match skipSpace rest with
    | ',' :: rest => fields value fuel before (skipSpace rest)
    | '\x7d' :: rest => return (before, rest)
    | _ => .error .malformed
  | _, _, _ => .error .malformed

/-- A value at the start of the text. -/
def value : Nat → List Char → Except JsonError (Json × List Char)
  | 0, _ => .error .malformed
  | fuel + 1, text =>
    match text with
    | '"' :: rest => do
      let (s, rest) ← string rest
      return (.string s, rest)
    | '[' :: rest =>
      match skipSpace rest with
      | ']' :: rest => return (.array [], rest)
      | rest => do
        let (xs, rest) ← items (value fuel) rest.length rest
        return (.array xs, rest)
    | '\x7b' :: rest =>
      match skipSpace rest with
      | '\x7d' :: rest => return (.object [], rest)
      | rest => do
        let (fs, rest) ← fields (value fuel) rest.length [] rest
        return (.object fs, rest)
    | _ => scalar text

end JsonReader

/-- The value of a JSON text. -/
def Json.ofText (text : String) : Except JsonError Json := do
  let (v, rest) ← JsonReader.value (text.length + 1) (JsonReader.skipSpace text.toList)
  if (JsonReader.skipSpace rest).isEmpty then .ok v else .error .malformed

end MapScript
