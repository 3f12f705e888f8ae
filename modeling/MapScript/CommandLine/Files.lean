import MapScript.CommandLine.Path
import MapScript.Table

/-!
# Files

What a program asks of the place where its files are: whether a path exists, the bytes of a file, a directory together
with those above it, and writing a text to a file. `FileTree` is such a place held in memory; it is the one that
statements about the command line are made of.

Names of files are bytes. A name has at most `maxNameBytes` of them, which counts when a directory is looked at for it,
and a path fewer than `maxPathBytes`, which counts before anything is looked at.
-/

namespace MapScript

/-- Why a file or directory cannot be had. -/
inductive FileFault
  | notFound
  | notDirectory
  | isDirectory
  | occupied
  | tooLong
  /-- A path with a character that ends names. -/
  | zeroByte
  /-- A path or a text that has no encoding as bytes. -/
  | unencodable
  deriving DecidableEq, Repr

def FileFault.message : FileFault → String
  | notFound => "no such file or directory"
  | notDirectory => "not a directory"
  | isDirectory => "is a directory"
  | occupied => "file exists"
  | tooLong => "file name too long"
  | zeroByte => "embedded null byte"
  | unencodable => "text has no encoding"

/-- Access to files. A path that no file can have does not exist, but for one that is too long, which is a fault. -/
class MonadFiles (m : Type → Type) where
  pathExists : Path → m (Except FileFault Bool)
  readBytes : Path → m (Except FileFault (List UInt8))
  makeDirectory : Path → m (Except FileFault Unit)
  writeText : Path → Text → m (Except FileFault Unit)

/-! ### Names as bytes -/

abbrev FileName := List UInt8

def maxNameBytes : Nat := 255

def maxPathBytes : Nat := 4096

/-- Bytes of a code point in a path: UTF-8 for a character, while a surrogate from U+DC80 to U+DCFF stands for a single
byte that is no character. -/
def CodePoint.pathBytes? : CodePoint → Option (List UInt8)
  | char c => some (String.utf8EncodeChar c)
  | surrogate n => if 0x480 ≤ n.val ∧ n.val < 0x500 then some [UInt8.ofNat (n.val - 0x400)] else none

def Text.pathBytes? (t : Text) : Option (List UInt8) := (t.points.mapM CodePoint.pathBytes?).map List.flatten

/-- The names that a path leads through, if it can be the path of a file. -/
def Path.fileNames (p : Path) : Except FileFault (List FileName) :=
  match p.text.pathBytes?, p.names.mapM Text.pathBytes? with
  | some whole, some names =>
    if 0 ∈ whole then .error .zeroByte
    else if maxPathBytes ≤ whole.length then .error .tooLong
    else .ok names
  | _, _ => .error .unencodable

/-! ### Files in memory -/

inductive FileNode
  | directory
  | file (bytes : List UInt8)
  deriving DecidableEq

/-- Files and directories by the names that lead to them. -/
structure FileTree where
  nodes : Table (List FileName) FileNode
  deriving DecidableEq

namespace FileTree

/-- The location of the root; no name holds a slash. -/
def root : List FileName := ["/".toUTF8.toList]

/-- The name that leads to the directory above. -/
def up : FileName := "..".toUTF8.toList

/-- The location that a name leads to. -/
def next (location : List FileName) (name : FileName) : List FileName :=
  if name = up then if location = root then root else location.dropLast else location ++ [name]

/-- The node at a location; the working directory and the root are always there. -/
def node? (t : FileTree) (location : List FileName) : Option FileNode :=
  if location = [] ∨ location = root then some .directory else t.nodes.get? location

/-- The location that names lead to from another one, through directories that exist. -/
def locate (t : FileTree) (location : List FileName) : List FileName → Except FileFault (List FileName)
  | [] => .ok location
  | name :: rest =>
    match t.node? location with
    | some .directory => if maxNameBytes < name.length then .error .tooLong else t.locate (next location name) rest
    | some (.file _) => .error .notDirectory
    | none => .error .notFound

def start (p : Path) : List FileName := if p.root = "" then [] else root

/-- The location of a path. -/
def location (t : FileTree) (p : Path) : Except FileFault (List FileName) := do
  t.locate (start p) (← p.fileNames)

/-- The node that a path leads to. -/
def at? (t : FileTree) (p : Path) : Except FileFault FileNode := do
  match t.node? (← t.location p) with
  | some node => .ok node
  | none => .error .notFound

def pathExists (t : FileTree) (p : Path) : Except FileFault Bool :=
  match t.at? p with
  | .ok _ => .ok true
  | .error .tooLong => .error .tooLong
  | .error _ => .ok false

def read (t : FileTree) (p : Path) : Except FileFault (List UInt8) := do
  match ← t.at? p with
  | .file bytes => .ok bytes
  | .directory => .error .isDirectory

/-- Writes a file; its directory has to exist. -/
def write (t : FileTree) (p : Path) (bytes : List UInt8) : Except FileFault FileTree := do
  let location ← t.location p
  if t.node? location = some .directory then .error .isDirectory
  else return ⟨t.nodes.insert location (.file bytes)⟩

/-- Writes a file in UTF-8; a text without an encoding is found when its file has been opened. -/
def writeText (t : FileTree) (p : Path) (text : Text) : Except FileFault FileTree := do
  match text.utf8? with
  | some bytes => t.write p bytes
  | none => t.write p [] *> .error .unencodable

/-- Makes the directories that names lead through from a location, as far as they are missing. A file in the way is no
directory to pass through, but once a directory has been `made` it occupies the place of the next one. -/
def makeFrom (t : FileTree) (made : Bool) (location : List FileName) : List FileName → Except FileFault FileTree
  | [] => .ok t
  | name :: rest =>
    if maxNameBytes < name.length then .error .tooLong
    else match t.node? (next location name) with
      | some .directory => t.makeFrom made (next location name) rest
      | some (.file _) => .error (if made || rest.isEmpty then .occupied else .notDirectory)
      | none => makeFrom ⟨t.nodes.insert (next location name) .directory⟩ true (next location name) rest

/-- Makes a directory and those above it, as far as they are missing. -/
def make (t : FileTree) (p : Path) : Except FileFault FileTree := do
  t.makeFrom false (start p) (← p.fileNames)

/-- A result as a step on a tree, which stays as it is on failure. -/
def update (t : FileTree) : Except FileFault FileTree → Except FileFault Unit × FileTree
  | .ok t' => (.ok (), t')
  | .error e => (.error e, t)

end FileTree

instance : MonadFiles (StateM FileTree) where
  pathExists p t := (t.pathExists p, t)
  readBytes p t := (t.read p, t)
  makeDirectory p t := t.update (t.make p)
  writeText p text t := t.update (t.writeText p text)

end MapScript
