import MapScript.Json.Reader
import MapScript.Json.Text
import MapScript.Overlay

/-!
# Map tables

The map table says where the maps lie in a game image. It is a JSON object whose field `maps` lists an entry for every
map. A table is valid for an image when every map is a part of the image that is not empty, its main script starts in its
window, and no two maps have one name.
-/

namespace MapScript

inductive MapTableError
  | json (cause : JsonError)
  | noMaps
  | noName
  /-- An entry that is no object. -/
  | notObject
  | notInteger (field shown : String)
  | outsideImage (entry : MapEntry) (imageLength : Nat)
  | emptyMap (name : Text)
  | mainOutside (name : Text) (main : Int)
  | duplicate (name : Text)
  deriving DecidableEq, Repr

def MapTableError.message? : MapTableError → Option Text
  | json cause => cause.message?
  | noMaps => some "map table must be a JSON object with a 'maps' list"
  | noName => some "map table entry is missing a name"
  | notObject => none
  | notInteger field shown => some ("map table field '" ++ field ++ "' is not an integer: " ++ shown)
  | outsideImage e imageLength =>
    some ("map " ++ e.name ++ " boundaries [" ++ Hex.size e.romStart ++ ", " ++ Hex.size e.romEnd ++
      ") exceed image size " ++ Hex.size imageLength)
  | emptyMap name => some ("map " ++ name ++ " must have a positive length")
  | mainOutside name main =>
    some ("map " ++ name ++ " main script " ++ Hex.address main ++ " lies outside its VRAM window")
  | duplicate name => some ("duplicate map name " ++ name)

namespace MapEntry

/-- An integer field of an entry: truth values are one and zero, texts are integer literals. -/
def integerField (fields : List (Text × Json)) (field : String) : Except MapTableError Int :=
  match (Json.field? field fields).getD .null with
  | .int n => .ok n
  | .bool b => .ok (if b then 1 else 0)
  | value =>
    match integer? value.text with
    | some n => .ok n
    | none => .error (.notInteger field value.shown)

/-- The entry with this name and these fields. -/
def ofFields (name : Json) (fields : List (Text × Json)) : Except MapTableError MapEntry := do
  return {
    name := name.text
    romStart := ← integerField fields "rom_start"
    romEnd := ← integerField fields "rom_end"
    vramStart := ← integerField fields "vram_start"
    main := ← integerField fields "main" }

/-- Whether `word` occurs in a text. -/
def occursIn (word : List CodePoint) : List CodePoint → Bool
  | [] => word.isEmpty
  | c :: rest => word.isPrefixOf (c :: rest) || occursIn word rest

def isNameText : Json → Bool
  | .string text => text = "name"
  | _ => false

/-- The entry of a JSON value. A list or a text without `name` in it counts as an entry without a name. -/
def ofJson : Json → Except MapTableError MapEntry
  | .object fields =>
    match Json.field? "name" fields with
    | some name => ofFields name fields
    | none => .error .noName
  | .array items => if items.any isNameText then .error .notObject else .error .noName
  | .string text =>
    if occursIn (Text.points "name") text.points then .error .notObject else .error .noName
  | _ => .error .notObject

/-- Checks that a map lies in an image of `imageLength` bytes and starts in its own window. -/
def validate (e : MapEntry) (imageLength : Nat) : Except MapTableError Unit :=
  if ¬(0 ≤ e.romStart ∧ e.romStart ≤ e.romEnd ∧ e.romEnd ≤ imageLength) then .error (.outsideImage e imageLength)
  else if e.length = 0 then .error (.emptyMap e.name)
  else if ¬(e.vramStart ≤ e.main ∧ e.main < e.vramEnd) then .error (.mainOutside e.name e.main)
  else .ok ()

end MapEntry

/-- An image together with the entries of its maps by their names. -/
structure MapTable where
  image : List UInt8
  entries : Table Text MapEntry
  deriving DecidableEq

namespace MapTable

/-- Adds a valid entry with a new name. -/
def add (t : MapTable) (e : MapEntry) : Except MapTableError MapTable := do
  e.validate t.image.length
  match t.entries.get? e.name with
  | some _ => .error (.duplicate e.name)
  | none => return { t with entries := t.entries.insert e.name e }

/-- The table of a list of entries. -/
def ofEntries (image : List UInt8) (es : List MapEntry) : Except MapTableError MapTable :=
  es.foldlM add ⟨image, .empty⟩

/-- The table of a JSON value; every entry is read before the first one is checked. -/
def ofJson (image : List UInt8) : Json → Except MapTableError MapTable
  | .object fields =>
    match Json.field? "maps" fields with
    | some (.array items) => do ofEntries image (← items.mapM MapEntry.ofJson)
    | _ => .error .noMaps
  | _ => .error .noMaps

/-- The table in the text of a file. -/
def ofText (image : List UInt8) (text : String) : Except MapTableError MapTable := do
  ofJson image (← (Json.ofText text).mapError .json)

/-- Names of the maps in the order of the table. -/
def names (t : MapTable) : List Text := t.entries.keys

/-- The map of a name. -/
def map? (t : MapTable) (name : Text) : Option Overlay :=
  (t.entries.get? name).map fun e => ⟨e, (t.image.take e.romEnd.toNat).drop e.romStart.toNat⟩

/-- All maps in the order of the table. -/
def maps (t : MapTable) : List Overlay := t.names.filterMap t.map?

end MapTable

end MapScript
