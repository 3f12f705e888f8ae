import MapScript.Text.Basic

/-!
# Paths

A path is absolute or starts at the working directory, and leads through names; `..` leads to the directory above. Empty
names and `.` are left out when a path is read. Two leading slashes are kept apart from one.
-/

namespace MapScript

structure Path where
  root : String
  names : List Text
  deriving DecidableEq

namespace Path

def isName (name : Text) : Bool := !name.isEmpty && name ≠ "."

/-- The root at the start of a path: a slash, just two of them, or none. -/
def rootOf : List CodePoint → String
  | .char '/' :: .char '/' :: .char '/' :: _ => "/"
  | .char '/' :: .char '/' :: _ => "//"
  | .char '/' :: _ => "/"
  | _ => ""

/-- What stands in front of the first slash, and the pieces behind it that slashes part. -/
def pieces : List CodePoint → List CodePoint × List (List CodePoint)
  | [] => ([], [])
  | c :: rest =>
    let (first, others) := pieces rest
    if c = .char '/' then ([], first :: others) else (c :: first, others)

def ofText (text : Text) : Path :=
  let (first, others) := pieces text.points
  ⟨rootOf text.points, ((first :: others).map Text.mk).filter isName⟩

def text (p : Path) : Text :=
  if p.root = "" ∧ p.names = [] then "." else p.root ++ .intercalate "/" p.names

/-- The directory that a path lies in. -/
def parent (p : Path) : Path := { p with names := p.names.dropLast }

/-- The path that leads on from a directory; an absolute one leads away from it. -/
def join (p : Path) (text : Text) : Path :=
  let q := ofText text
  if q.root = "" then { p with names := p.names ++ q.names } else q

example : (ofText "//a/./b//c/").text = "//a/b/c" ∧ ((ofText "a/b").join "../c").text = "a/b/../c" ∧
    (ofText "").text = "." := by
  decide

end Path

end MapScript
