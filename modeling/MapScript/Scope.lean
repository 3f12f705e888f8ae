import MapScript.Failure
import MapScript.Slice
import MapScript.Table

/-!
# Scopes

A scope binds addresses to names and names to types, in layers that lie one inside the other. Looking up goes from the
innermost layer outwards, so that an inner binding hides those outside; writing goes to the innermost layer only.

A scope may have no layers: then nothing is found in it, and it cannot be written to.
-/

namespace MapScript

/-- The bindings of one layer. -/
structure Layer where
  addresses : Table Int Text
  names : Table Text DataType
  deriving DecidableEq

def Layer.empty : Layer := ⟨.empty, .empty⟩

/-- Layers of bindings, the innermost first. -/
structure Scope where
  layers : List Layer
  deriving DecidableEq

namespace Scope

/-- The scope of a single empty layer. -/
def base : Scope := ⟨[.empty]⟩

def depth (s : Scope) : Nat := s.layers.length

/-- Opens a layer. -/
def push (s : Scope) : Scope := ⟨.empty :: s.layers⟩

/-- Closes the innermost layer. -/
def pop? (s : Scope) : Option (Layer × Scope) :=
  match s.layers with
  | [] => none
  | layer :: outer => some (layer, ⟨outer⟩)

@[simp] theorem pop?_push (s : Scope) : s.push.pop? = some (.empty, s) := rfl

@[simp] theorem depth_push (s : Scope) : s.push.depth = s.depth + 1 := rfl

/-! ### Looking up -/

/-- The name of an address in the innermost layer that binds it. -/
def nameAt? (s : Scope) (address : Int) : Option Text :=
  s.layers.findSome? fun layer => layer.addresses.get? address

/-- The type of a name in the innermost layer that binds it. -/
def typeOf? (s : Scope) (name : Text) : Option DataType :=
  s.layers.findSome? fun layer => layer.names.get? name

/-- The type of a name within the `depth` layers around the innermost one; a negative depth leaves out the outermost
layers, as positions from the end of a list do. -/
def typeWithin? (s : Scope) (name : Text) (depth : Int) : Option DataType :=
  (upTo s.layers (depth + 1)).findSome? fun layer => layer.names.get? name

/-- The type of a name in the innermost layer. -/
def currentType? (s : Scope) (name : Text) : Option DataType :=
  s.layers.head?.bind fun layer => layer.names.get? name

theorem typeWithin?_zero (s : Scope) (name : Text) : s.typeWithin? name 0 = s.currentType? name := by
  obtain ⟨_ | ⟨layer, outer⟩⟩ := s
  · rfl
  · simp only [typeWithin?, currentType?, upTo, position]
    cases h : layer.names.get? name <;> simp [h]

@[simp] theorem nameAt?_push (s : Scope) (address : Int) : s.push.nameAt? address = s.nameAt? address := rfl

@[simp] theorem typeOf?_push (s : Scope) (name : Text) : s.push.typeOf? name = s.typeOf? name := rfl

/-! ### Writing -/

/-- Changes the innermost layer. -/
def modify (s : Scope) (f : Layer → Layer) : Except Failure Scope :=
  match s.layers with
  | [] => .error .noLayers
  | layer :: outer => .ok ⟨f layer :: outer⟩

/-- Binds a name to a type. -/
def bindName (s : Scope) (name : Text) (type : DataType) : Except Failure Scope :=
  s.modify fun layer => { layer with names := layer.names.insert name type }

/-- Binds an address to a name, and the name to a type. -/
def bindAddress (s : Scope) (address : Int) (name : Text) (type : DataType) : Except Failure Scope :=
  s.modify fun layer => ⟨layer.addresses.insert address name, layer.names.insert name type⟩

/-- Binds a name to the type inferred for it, unless it has another concrete type already. -/
def refineName (s : Scope) (name : Text) (type : DataType) : Except Failure Scope :=
  match s.layers with
  | [] => .error .noLayers
  | layer :: _ =>
    match layer.names.get? name with
    | some previous =>
      if previous.isWildcard ∨ previous = type then s.bindName name type
      else .error (.inconsistent (.alreadyTyped name type previous))
    | none => s.bindName name type

/-- Only a scope without layers cannot be written to. -/
theorem modify_eq_error_iff {s : Scope} {f : Layer → Layer} {e : Failure} :
    s.modify f = .error e ↔ s.layers = [] ∧ e = .noLayers := by
  obtain ⟨_ | ⟨layer, outer⟩⟩ := s <;> simp [modify, eq_comm]

@[simp] theorem modify_cons (layer : Layer) (outer : List Layer) (f : Layer → Layer) :
    (⟨layer :: outer⟩ : Scope).modify f = .ok ⟨f layer :: outer⟩ := rfl

theorem currentType?_bindName {s s' : Scope} {name : Text} {type : DataType} (h : s.bindName name type = .ok s')
    (other : Text) : s'.currentType? other = if name = other then some type else s.currentType? other := by
  obtain ⟨_ | ⟨layer, outer⟩⟩ := s
  · cases h
  · cases h; simp [currentType?]

end Scope

end MapScript
