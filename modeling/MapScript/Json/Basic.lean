import MapScript.Binary64.Basic
import MapScript.Table
import MapScript.Text.Basic

/-!
# JSON values

Values of JSON text. The fields of an object stand in the order of their first appearance, every key once. Numbers with a
fraction or an exponent are double precision numbers, others are integers of any size.
-/

namespace MapScript

inductive Json
  | null
  | bool (value : Bool)
  | int (value : Int)
  | float (value : Binary64)
  | string (text : Text)
  | array (items : List Json)
  | object (fields : List (Text × Json))
  deriving Inhabited

namespace Json

/-- The value of a field. -/
def field? (key : Text) (fields : List (Text × Json)) : Option Json := Entries.get? key fields

/-- Whether a value counts as present: it is not null, false, a zero or empty. -/
def isTruthy : Json → Bool
  | null => false
  | bool value => value
  | int value => value ≠ 0
  | float value => !value.isZero
  | string text => !text.isEmpty
  | array items => !items.isEmpty
  | object fields => !fields.isEmpty

end Json

end MapScript
