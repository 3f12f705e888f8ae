import MapScript.Json.Reader
import MapScript.Json.Text
import MapScript.Logged
import MapScript.Scope

/-!
# The catalogue of native methods

Scripts call native methods of the engine at fixed addresses. The catalogue gives the name and the parameter types of the
methods that are known, at most one for an address. Its list is in the order of the addresses.

A catalogue is read from a JSON object with an address for every key. Items that are no methods are left out and reported;
an item whose parameters cannot be read makes the whole catalogue fail.
-/

namespace MapScript

/-- A native method at its address. -/
structure EntryPoint where
  address : Int
  name : Text
  type : DataType
  deriving DecidableEq

/-- The name and the type of a native method. -/
structure Method where
  name : Text
  type : DataType
  deriving DecidableEq

structure Catalogue where
  methods : Table Int Method
  deriving DecidableEq

inductive CatalogueError
  | json (cause : JsonError)
  | notObject
  | parametersNotList (name : Text)
  | type (cause : DataType.Unreadable)
  deriving DecidableEq, Repr

def CatalogueError.message? : CatalogueError → Option Text
  | json cause => cause.message?
  | notObject => some "method catalogue must contain a JSON object"
  | parametersNotList name => some ("parameters of " ++ name ++ " must be a list")
  | type cause => some cause.message

namespace Catalogue

def empty : Catalogue := ⟨.empty⟩

def size (c : Catalogue) : Nat := c.methods.size

/-- Adds a method, in place of one at the same address. -/
def insert (c : Catalogue) (e : EntryPoint) : Catalogue := ⟨c.methods.insert e.address ⟨e.name, e.type⟩⟩

/-- The catalogue of a list of methods; of two at one address the later one counts. -/
def ofList (es : List EntryPoint) : Catalogue := es.foldl insert empty

def lookup? (c : Catalogue) (address : Int) : Option EntryPoint :=
  (c.methods.get? address).map fun m => ⟨address, m.name, m.type⟩

/-- The methods in the order of their addresses. -/
def toList (c : Catalogue) : List EntryPoint :=
  (c.methods.entries.map fun (address, m) => (⟨address, m.name, m.type⟩ : EntryPoint)).mergeSort
    fun d e => d.address ≤ e.address

/-- The layer that binds every method of the catalogue; of two methods of one name that at the greater address counts. -/
def layer (c : Catalogue) : Layer :=
  c.toList.foldl (fun l e => ⟨l.addresses.insert e.address e.name, l.names.insert e.name e.type⟩) .empty

/-- The scope of the layer that binds every method of the catalogue. -/
def scope (c : Catalogue) : Scope := ⟨[c.layer]⟩

/-! ### Reading -/

/-- The parameter types of an item: none if they are missing or empty. -/
def parameterTypes (name : Json) (fields : List (Text × Json)) : Except CatalogueError (List DataType) :=
  match (Json.field? "parameters" fields).filter Json.isTruthy with
  | none => .ok []
  | some (.array items) => items.mapM fun item => (DataType.ofText item.text).mapError .type
  | some _ => .error (.parametersNotList name.text)

/-- The name of an item that is a method. -/
def methodName? (item : Json) : Option Json :=
  match item with
  | .object fields => (Json.field? "name" fields).filter Json.isTruthy
  | _ => none

def fieldsOf : Json → List (Text × Json)
  | .object fields => fields
  | _ => []

/-- Adds an item of the file at `path` to the catalogue, if it is usable. -/
def addItem (path : Text) (c : Catalogue) (key : Text) (item : Json) : Logged CatalogueError Catalogue :=
  match methodName? item, integer? key with
  | none, _ => do
    .report (.malformedEntry key path)
    return c
  | some _, none => do
    .report (.invalidAddress (quoted key))
    return c
  | some name, some address => do
    let parameters ← parameterTypes name (fieldsOf item)
    return c.insert ⟨address, name.text, .native parameters⟩

/-- The catalogue of a JSON value that was read from `path`. -/
def ofJson (path : Text) : Json → Logged CatalogueError Catalogue
  | .object fields => fields.foldlM (fun c (key, item) => addItem path c key item) empty
  | _ => .fail .notObject

/-- The catalogue in the text of the file at `path`. -/
def ofText (path : Text) (text : String) : Logged CatalogueError Catalogue := do
  let json ← (Json.ofText text).mapError CatalogueError.json
  let c ← ofJson path json
  .report (.catalogueLoaded c.size path)
  return c

end Catalogue

end MapScript
