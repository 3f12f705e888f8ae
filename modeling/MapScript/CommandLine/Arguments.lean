import MapScript.CommandLine.Path
import MapScript.Options
import MapScript.Text.DecimalDigit

/-!
# Command line arguments

Two positional arguments, the image and the map table, stand among options in any order. Options may be abbreviated to a
part that no other option starts with, and take their value behind an equals sign or as the next argument. Behind `--`
every argument is positional. Where `--` stands in the place of a value there is none: the option is given, and it names
nothing.

Arguments are told apart first, all of them, and then done from left to right. So an ambiguous option is an error before
anything else, while help comes before the errors behind it, and arguments that are too many are found at the end.
-/

namespace MapScript

/-- Where the catalogue comes from. -/
inductive CatalogueSource
  | engine
  | file (path : Option Path)
  deriving DecidableEq

/-- The path that has to exist for the catalogue. -/
def CatalogueSource.paths : CatalogueSource → List (Option Path)
  | engine => []
  | file path => [path]

/-- What a run is asked to do; `none` stands for a value that names nothing. -/
structure Arguments where
  image : Option Path
  table : Option Path
  /-- Names of the maps to decompile; all maps if the list is empty. -/
  maps : List (Option Text)
  /-- Where the texts are written, if it is not the directory of the image. -/
  outDir : Option Path
  catalogue : CatalogueSource
  policy : Option CommitPolicy
  verbose : Bool
  deriving DecidableEq

/-- How reading arguments ends when there is nothing to run. -/
inductive Stop
  | usage
  | help
  deriving DecidableEq, Repr

inductive Switch
  | help
  | map
  | outDir
  | catalogue
  | commitPolicy
  | verbose
  deriving DecidableEq, Repr

namespace Switch

def all : List Switch := [help, map, outDir, catalogue, commitPolicy, verbose]

def word : Switch → String
  | help => "--help"
  | map => "--map"
  | outDir => "--out-dir"
  | catalogue => "--catalogue"
  | commitPolicy => "--commit-policy"
  | verbose => "--verbose"

def points (s : Switch) : List CodePoint := (Text.ofString s.word).points

end Switch

/-- What an argument is, before its neighbours are seen. -/
inductive Shape
  | value (text : Text)
  /-- The first `--`. -/
  | mark
  | option (switch : Switch) (attached : Option Text)
  /-- The short form of the help option, and what follows it in the same argument. -/
  | shortHelp (rest : List CodePoint)
  | unknown
  deriving DecidableEq, Repr

namespace Arguments

/-- A minus sign and a decimal number, of which a line feed may follow. -/
def isNegativeNumber : List CodePoint → Bool
  | .char '-' :: rest =>
    let body := if rest.getLast? = some (.char '\n') then rest.dropLast else rest
    let isDigit (c : CodePoint) := (decimalDigit? c).isSome
    match body.dropWhile isDigit with
    | [] => !body.isEmpty
    | .char '.' :: fraction => !fraction.isEmpty && fraction.all isDigit
    | _ => false
  | _ => false

/-- Name and value on both sides of the first equals sign. -/
def splitEquals (text : List CodePoint) : List CodePoint × Option Text :=
  match text.span (· ≠ .char '=') with
  | (name, _ :: value) => (name, some ⟨value⟩)
  | (name, []) => (name, none)

/-- Shape of an argument that starts with two minus signs, if it is an option: an exact name counts before others, a
part of a name when it is the part of one only. -/
def longOption? (text : List CodePoint) : Except Stop (Option Shape) :=
  let (name, attached) := splitEquals text
  match Switch.all.find? (·.points = name), Switch.all.filter fun s => name.isPrefixOf s.points with
  | some s, _ => .ok (some (.option s attached))
  | none, [s] => .ok (some (.option s attached))
  | none, [] => .ok none
  | none, _ :: _ :: _ => .error .usage

/-- Shape of an argument that starts with a minus sign and is no option. -/
def otherShape (text : Text) : Shape :=
  if isNegativeNumber text.points || text.points.contains (.char ' ') then .value text else .unknown

/-- Shape of an argument in front of the mark. -/
def shapeOf (text : Text) : Except Stop Shape :=
  match text.points with
  | [.char '-'] => .ok (.value text)
  | .char '-' :: .char '-' :: _ => do return (← longOption? text.points).getD (otherShape text)
  | .char '-' :: .char 'h' :: rest => .ok (.shortHelp rest)
  | .char '-' :: _ => .ok (otherShape text)
  | _ => .ok (.value text)

/-- Shapes of all arguments; behind the mark every one is a value. -/
def shapes : List Text → Except Stop (List Shape)
  | [] => .ok []
  | text :: rest =>
    if text = "--" then .ok (.mark :: rest.map .value)
    else return (← shapeOf text) :: (← shapes rest)

/-- How the short help option ends with what follows it: more of its letter, also behind an equals sign, and no more. -/
def shortHelp : List CodePoint → Stop
  | [] => .help
  | [.char '='] => .usage
  | .char '=' :: rest | rest => if rest.all (· = .char 'h') then .help else .usage

/-- The value of an argument; the mark in its place is none. -/
def valueOf? (text : Text) : Option Text := if text = "--" then none else some text

/-- Arguments while they are read: the positional ones so far, and whether there were others that have no place. -/
structure Partial where
  positional : List (Option Path)
  surplus : Bool
  given : Arguments

namespace Partial

def empty : Partial := ⟨[], false, ⟨none, none, [], none, .engine, some .skipRemaining, false⟩⟩

/-- Takes a positional argument; one that names nothing has its place, too. -/
def add (p : Partial) (value : Option Text) : Partial :=
  if p.positional.length < 2 then { p with positional := p.positional ++ [value.map Path.ofText] }
  else { p with surplus := true }

/-- Takes the value of an option. -/
def set (p : Partial) (s : Switch) (value : Option Text) : Except Stop Partial :=
  match s, value with
  | .map, value => .ok { p with given.maps := p.given.maps ++ [value] }
  | .outDir, value => .ok { p with given.outDir := value.map Path.ofText }
  | .catalogue, value => .ok { p with given.catalogue := .file (value.map Path.ofText) }
  | .commitPolicy, none => .ok { p with given.policy := none }
  | .commitPolicy, some word =>
    match CommitPolicy.ofWord? word with
    | some policy => .ok { p with given.policy := some policy }
    | none => .error .usage
  | .help, _ | .verbose, _ => .error .usage

/-- Goes through the arguments from left to right. A mark belongs to a positional argument beside it; the one behind it
is taken as it stands. -/
def read (p : Partial) : List Shape → Except Stop Partial
  | [] => .ok p
  | .unknown :: rest => read { p with surplus := true } rest
  | .shortHelp cs :: _ => .error (Arguments.shortHelp cs)
  | .option .help none :: _ => .error .help
  | .option .verbose none :: rest => read { p with given.verbose := true } rest
  | .option s (some text) :: rest => do read (← p.set s (valueOf? text)) rest
  | .option s none :: .value text :: rest => do read (← p.set s (some text)) rest
  | .option _ none :: _ => .error .usage
  | .mark :: .value text :: rest => read (p.add (some text)) rest
  | .mark :: rest => read { p with surplus := true } rest
  | .value text :: .mark :: rest => read (p.add (some text)) rest
  | .value text :: rest => read (p.add (valueOf? text)) rest

/-- The arguments, if both positional ones are there and nothing is left over. -/
def finish (p : Partial) : Except Stop Arguments :=
  match p.positional, p.surplus with
  | [image, table], false => .ok { p.given with image, table }
  | _, _ => .error .usage

end Partial

/-- Reads the arguments of a command line. -/
def ofList (arguments : List Text) : Except Stop Arguments := do
  (← Partial.empty.read (← shapes arguments)).finish

end Arguments

end MapScript
