import MapScript.DataType.Basic
import MapScript.Text.Blank
import MapScript.Text.Lower
import MapScript.Text.Quoted

/-!
# Text of data types

A type is written as its word, a callable as its word and the parameter types in parentheses: `fun(int, asm())`. Reading
ignores letter case and blanks around every type, and one blank piece behind the last comma of a parameter list.
-/

namespace MapScript

def Convention.word : Convention → List Char
  | .script => ['f', 'u', 'n']
  | .native => ['a', 's', 'm']

namespace DataType

/-- The word that names the kind of a type. -/
def word : DataType → List Char
  | .any => ['a', 'n', 'y']
  | .bool => ['b', 'o', 'o', 'l']
  | .int => ['i', 'n', 't']
  | .float => ['f', 'l', 'o', 'a', 't']
  | .callable c _ => c.word

mutual

/-- Written form of a type. -/
def chars : DataType → List Char
  | .callable c ps => c.word ++ '(' :: charsList ps ++ [')']
  | t => t.word

/-- Written forms of types, a comma and a space between them. -/
def charsList : List DataType → List Char
  | [] => []
  | [t] => t.chars
  | t :: ts => t.chars ++ ',' :: ' ' :: charsList ts

end

/-- Written form of a type. -/
def text (t : DataType) : Text := .ofChars t.chars

/-- The text at fault when a type cannot be read. -/
structure Unreadable where
  text : Text
  deriving DecidableEq, Repr

def Unreadable.message (u : Unreadable) : Text := "unknown data type: " ++ quoted u.text

/-- The change of nesting depth that a code point makes. -/
def nesting : CodePoint → Int
  | .char '(' => 1
  | .char ')' => -1
  | _ => 0

/-- Pieces between the commas at depth zero, where `current` is the piece read so far; a blank last piece is dropped. -/
def piecesFrom (depth : Int) (current : List CodePoint) : List CodePoint → List (List CodePoint)
  | [] => if trim current = [] then [] else [current]
  | c :: rest =>
    if c = .char ',' ∧ depth = 0 then current :: piecesFrom 0 [] rest
    else piecesFrom (depth + nesting c) (current ++ [c]) rest

/-- Pieces of a parameter list. -/
def pieces (inner : List CodePoint) : List (List CodePoint) := piecesFrom 0 [] inner

def scalar? (text : List CodePoint) : Option DataType :=
  [DataType.any, .bool, .int, .float].find? (·.word.map .char = text)

/-- What stands between the parentheses of a callable. -/
def callable? (text : List CodePoint) : Option (Convention × List CodePoint) :=
  [Convention.script, .native].findSome? fun c =>
    if ((c.word ++ ['(']).map .char).isPrefixOf text ∧ [.char ')'].isSuffixOf text then
      some (c, (text.drop (c.word.length + 1)).dropLast)
    else none

theorem length_lt_of_callable? {text inner : List CodePoint} {c : Convention} (h : callable? text = some (c, inner)) :
    inner.length < text.length := by
  obtain ⟨d, -, hd⟩ := List.exists_of_findSome?_eq_some h
  split at hd
  next hp =>
    obtain ⟨rest, rfl⟩ := List.isPrefixOf_iff_prefix.1 hp.1
    simp only [Option.some.injEq, Prod.mk.injEq] at hd
    simp [← hd.2]
    omega
  next => cases hd

theorem length_le_of_mem_piecesFrom {depth : Int} {current text piece : List CodePoint}
    (h : piece ∈ piecesFrom depth current text) : piece.length ≤ current.length + text.length := by
  induction text generalizing depth current with
  | nil =>
    simp only [piecesFrom] at h
    split at h <;> simp_all
  | cons c rest ih =>
    simp only [piecesFrom] at h
    split at h
    · rcases List.mem_cons.1 h with rfl | h
      · simp
      · have := ih h
        simp at this ⊢; omega
    · have := ih h
      simp at this ⊢; omega

/-- Reads a type from lower-case text; `shown` is the text to name when it is none. -/
def ofLower (shown text : List CodePoint) : Except Unreadable DataType :=
  match scalar? (trim text) with
  | some t => .ok t
  | none =>
    match _ : callable? (trim text) with
    | none => .error ⟨⟨shown⟩⟩
    | some (c, inner) =>
      return .callable c (← (pieces inner).attach.mapM fun piece => ofLower piece.1 piece.1)
termination_by text.length
decreasing_by
  have h₁ := length_lt_of_callable? ‹_›
  have h₂ := length_le_of_mem_piecesFrom piece.2
  have h₃ := length_trim_le text
  simp only [List.length_nil] at h₂
  omega

/-- Reads a type. -/
def ofText (text : Text) : Except Unreadable DataType := ofLower text.points (lower (trim text.points))

end DataType

end MapScript
