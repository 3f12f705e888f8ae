import MapScript.Binary64.Shortest
import MapScript.Json.Basic
import MapScript.Text.Quoted

/-!
# Shown form of JSON values

Values as they are shown in messages and taken as text: `None`, `True` and `False` for the constants, a number by its
digits, a text by itself or, inside other values, quoted. A shown form consists of characters; a text that is taken by
itself may hold surrogates.
-/

namespace MapScript.Json

mutual

/-- The shown form of a value, with texts quoted. -/
def shown : Json → String
  | .null => "None"
  | .bool true => "True"
  | .bool false => "False"
  | .int value => toString value
  | .float value => value.text
  | .string text => quoted text
  | .array items => "[" ++ ", ".intercalate (shownItems items) ++ "]"
  | .object fields => "\x7b" ++ ", ".intercalate (shownFields fields) ++ "\x7d"

def shownItems : List Json → List String
  | [] => []
  | item :: rest => item.shown :: shownItems rest

def shownFields : List (Text × Json) → List String
  | [] => []
  | (key, field) :: rest => (quoted key ++ ": " ++ field.shown) :: shownFields rest

end

/-- A value as text: a text is itself, every other value its shown form. -/
def text : Json → Text
  | .string text => text
  | value => value.shown

end MapScript.Json
