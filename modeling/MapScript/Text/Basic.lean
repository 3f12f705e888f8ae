/-!
# Text

A text is a sequence of code points. Most of them are characters; the others are surrogates, halves of pairs that stand
alone. JSON text can spell them and they may end up in names, but UTF-8 has no bytes for them: `utf8?` gives the bytes of
exactly those texts that consist of characters.
-/

namespace MapScript

/-- Decimal numbers with more digits than this are neither read nor written. -/
def maxDecimalDigits : Nat := 4300

/-- A number with more decimal digits than are written. -/
def TooLong (n : Int) : Prop := maxDecimalDigits < (Nat.toDigits 10 n.natAbs).length

instance (n : Int) : Decidable (TooLong n) := inferInstanceAs (Decidable (_ < _))

inductive CodePoint
  | char (c : Char)
  /-- The code point `0xD800 + n`. -/
  | surrogate (n : Fin 0x800)
  deriving DecidableEq, Repr

namespace CodePoint

instance : Coe Char CodePoint := ⟨char⟩

instance : Inhabited CodePoint := ⟨'\x00'⟩

def toNat : CodePoint → Nat
  | char c => c.toNat
  | surrogate n => 0xD800 + n

def toChar? : CodePoint → Option Char
  | char c => some c
  | surrogate _ => none

theorem toNat_injective {p q : CodePoint} (h : p.toNat = q.toNat) : p = q := by
  have bounds (c : Char) : c.toNat < 0xD800 ∨ 0xDFFF < c.toNat := by
    rcases c.valid with h | h
    · exact .inl h
    · exact .inr h.1
  cases p with
  | char c =>
    cases q with
    | char d => exact congrArg char (Char.ext (UInt32.toNat_inj.1 h))
    | surrogate n => simp only [toNat] at h; have := bounds c; omega
  | surrogate n =>
    cases q with
    | char d => simp only [toNat] at h; have := bounds d; omega
    | surrogate m => simp only [toNat] at h; congr; omega

end CodePoint

structure Text where
  points : List CodePoint
  deriving DecidableEq, Repr

namespace Text

def ofChars (cs : List Char) : Text := ⟨cs.map .char⟩

def ofString (s : String) : Text := ofChars s.toList

instance : Coe String Text := ⟨ofString⟩

def empty : Text := ⟨[]⟩

instance : Inhabited Text := ⟨empty⟩

def isEmpty (t : Text) : Bool := t.points.isEmpty

instance : Append Text := ⟨fun s t => ⟨s.points ++ t.points⟩⟩

/-- Texts with a separator between them. -/
def intercalate (separator : Text) (ts : List Text) : Text := ⟨separator.points.intercalate (ts.map points)⟩

/-- So many copies of a text, one behind the other. -/
def times (count : Nat) (t : Text) : Text := ⟨(List.replicate count t.points).flatten⟩

/-- Decimal digits of a number. -/
def ofNat (n : Nat) : Text := ofChars (Nat.toDigits 10 n)

/-- Decimal digits of a number, behind its sign if it is negative; there are none if they were too many. -/
def ofInt? (n : Int) : Option Text :=
  if TooLong n then none
  else some (if n < 0 then "-" ++ ofNat n.natAbs else ofNat n.natAbs)

/-- The characters of a text without surrogates. -/
def chars? (t : Text) : Option (List Char) := t.points.mapM CodePoint.toChar?

/-- The UTF-8 bytes of a text without surrogates. -/
def utf8? (t : Text) : Option (List UInt8) := t.chars?.map fun cs => cs.flatMap String.utf8EncodeChar

@[ext] theorem ext {s t : Text} (h : s.points = t.points) : s = t := by
  cases s; cases t; cases h; rfl

@[simp] theorem points_append (s t : Text) : (s ++ t).points = s.points ++ t.points := rfl

@[simp] theorem points_ofChars (cs : List Char) : (ofChars cs).points = cs.map .char := rfl

theorem ofChars_append (cs ds : List Char) : ofChars (cs ++ ds) = ofChars cs ++ ofChars ds := by
  ext1; simp

theorem ofChars_injective {cs ds : List Char} (h : ofChars cs = ofChars ds) : cs = ds :=
  (List.map_inj_right fun _ _ => CodePoint.char.inj).1 (congrArg points h)

@[simp] theorem chars?_ofChars (cs : List Char) : (ofChars cs).chars? = some cs := by
  induction cs with
  | nil => rfl
  | cons c rest ih =>
    simp only [chars?, points_ofChars, List.map_cons, List.mapM_cons, CodePoint.toChar?] at ih ⊢
    simp [ih]

/-- A text that has characters is made of them. -/
theorem eq_ofChars_of_chars? {t : Text} {cs : List Char} (h : t.chars? = some cs) : t = ofChars cs := by
  obtain ⟨ps⟩ := t
  ext1
  simp only [chars?, points_ofChars] at h ⊢
  induction ps generalizing cs with
  | nil => cases h; rfl
  | cons p rest ih =>
    cases p with
    | surrogate n => simp [CodePoint.toChar?] at h
    | char c =>
      simp only [List.mapM_cons, CodePoint.toChar?, Option.pure_def, Option.bind_eq_bind, Option.bind_some,
        Option.bind_eq_some_iff, Option.some.injEq] at h
      obtain ⟨ds, hd, rfl⟩ := h
      rw [List.map_cons, ← ih hd]

example : ("é" : Text).utf8? = some [0xc3, 0xa9] ∧ (⟨[.surrogate 0]⟩ : Text).utf8? = none ∧
    ofInt? (-12) = some ("-12" : Text) := by
  decide

end Text

end MapScript
