import MapScript.Text.Hex

/-!
# Map overlays

A map is a slice of the game image that is copied to a window of addresses before the main script of the map runs.
Several maps use the same window, so that an address means something only together with its map.
-/

namespace MapScript

/-- Where a map lies in the image, and at which addresses it runs. -/
structure MapEntry where
  name : Text
  romStart : Int
  romEnd : Int
  vramStart : Int
  main : Int
  deriving DecidableEq, Repr

namespace MapEntry

/-- Bytes of the window; none when the end lies before the start. -/
def length (e : MapEntry) : Int := max 0 (e.romEnd - e.romStart)

def vramEnd (e : MapEntry) : Int := e.vramStart + e.length

end MapEntry

/-- A map together with its bytes. -/
structure Overlay where
  entry : MapEntry
  data : List UInt8
  deriving DecidableEq

namespace Overlay

/-- Whether an address lies in the window of the map. -/
def contains (o : Overlay) (address : Int) : Bool :=
  o.entry.vramStart ≤ address && address < o.entry.vramEnd

/-- The bytes from an address in the window to the end of the map. -/
def read? (o : Overlay) (address : Int) : Option (List UInt8) :=
  if o.contains address then some (o.data.drop (address - o.entry.vramStart).toNat) else none

/-- The bytes of the main script, none when its address lies outside the window. -/
def mainBytes (o : Overlay) : List UInt8 := (o.read? o.entry.main).getD []

end Overlay

end MapScript
