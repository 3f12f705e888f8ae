import MapScript.Binary64.Basic
import MapScript.Text.Hex

/-!
# Operands

Operands of instructions are signed words. Small ones and very small negative ones stand for themselves. The negative
range between is carved into bands: one for every storage class of variables, twenty million wide with ten million on either
side of its origin, and a wider one below them for fixed point numbers. The index of a variable is its distance from the
origin of its band and may be negative.

A variable is named by its storage class and its index in signed hexadecimal.
-/

namespace MapScript

/-- Storage classes of variables, in the order of their bands from the lowest up. -/
inductive Storage
  | arrayFlag
  | arrayVar
  | gameByte
  | areaByte
  | gameFlag
  | areaFlag
  | mapFlag
  | localFlag
  | mapVar
  | localWord
  deriving DecidableEq, Repr

namespace Storage

def all : List Storage :=
  [arrayFlag, arrayVar, gameByte, areaByte, gameFlag, areaFlag, mapFlag, localFlag, mapVar, localWord]

/-- The word that names of variables of the class start with. -/
def word : Storage → String
  | arrayFlag => "ArrayFlag"
  | arrayVar => "ArrayVar"
  | gameByte => "GameByte"
  | areaByte => "AreaByte"
  | gameFlag => "GameFlag"
  | areaFlag => "AreaFlag"
  | mapFlag => "MapFlag"
  | localFlag => "FunFlag"
  | mapVar => "MapVar"
  | localWord => "FunWord"

/-- The operand of the variable with index zero. -/
def origin : Storage → Int
  | arrayFlag => -210000000
  | arrayVar => -190000000
  | gameByte => -170000000
  | areaByte => -150000000
  | gameFlag => -130000000
  | areaFlag => -110000000
  | mapFlag => -90000000
  | localFlag => -70000000
  | mapVar => -50000000
  | localWord => -30000000

/-- The greatest operand of the class. -/
def last (s : Storage) : Int := s.origin + 10000000

/-- Flags hold truth values. -/
def isFlag : Storage → Bool
  | arrayFlag | gameFlag | areaFlag | mapFlag | localFlag => true
  | _ => false

/-- Local variables belong to one run of a script. -/
def isLocal : Storage → Bool
  | localFlag | localWord => true
  | _ => false

/-- The class whose band holds an operand above the fixed point band. -/
def of? (value : Int) : Option Storage := all.find? (value ≤ ·.last)

end Storage

structure Variable where
  storage : Storage
  index : Int
  deriving DecidableEq, Repr

def Variable.name (v : Variable) : Text := v.storage.word ++ "_" ++ Hex.signed v.index

/-- What an operand stands for. -/
inductive Operand
  | literal (value : Int)
  | fixed (value : Binary64)
  | variable (v : Variable)
  deriving DecidableEq

namespace Operand

/-- Operands up to this one are literals. -/
def lastLowLiteral : Int := -270000000

/-- The greatest operand of the fixed point band. -/
def lastFixed : Int := -220000000

/-- The operand of the fixed point number zero. -/
def fixedOrigin : Int := -230000000

/-- Steps of a fixed point number in one unit. -/
def fixedScale : Nat := 1024

def ofInt (value : Int) : Operand :=
  if value ≤ lastLowLiteral then .literal value
  else if value ≤ lastFixed then .fixed (.ofQuotient (value - fixedOrigin) fixedScale)
  else match Storage.of? value with
    | some s => .variable ⟨s, value - s.origin⟩
    | none => .literal value

end Operand

end MapScript
