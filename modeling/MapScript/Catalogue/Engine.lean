import MapScript.Catalogue.Basic

/-!
# Methods of the engine

The catalogue that is used where no other is given.
-/

namespace MapScript

/-- Native methods of the engine in the order of the catalogue file. -/
def engineMethods : List EntryPoint := [
  ⟨0x802D1DDC, "DisablePlayerInput", .native [.bool]⟩,
  ⟨0x802D1E7C, "DisablePlayerPhysics", .native [.bool]⟩,
  ⟨0x802D1F94, "SetPlayerPos", .native [.int, .int, .int]⟩,
  ⟨0x802D2134, "GetPlayerPos", .native [.any, .any, .any]⟩,
  ⟨0x802D5FF8, "SetMusicTrack", .native [.int, .int, .int, .int]⟩,
  ⟨0x802D6954, "PlayAmbientSounds", .native [.int]⟩,
  ⟨0x802C8A30, "EnableModel", .native [.int, .bool]⟩,
  ⟨0x802C8B60, "EnableGroup", .native [.int, .bool]⟩,
  ⟨0x802C9000, "ModifyColliderFlags", .native [.int, .int, .int]⟩,
  ⟨0x802C9C70, "SetZoneEnabled", .native [.int, .bool]⟩,
  ⟨0x802CA460, "GotoMap", .native [.int, .int]⟩,
  ⟨0x802CA828, "UseDoorSounds", .native [.int]⟩,
  ⟨0x80044298, "MakeNpcs", .native [.bool, .int]⟩,
  ⟨0x802D0A2C, "SpeakToPlayer", .native [.int, .int, .int, .int, .int]⟩,
  ⟨0x802D9140, "SetCamSpeed", .native [.int, .float]⟩]

namespace Catalogue

/-- The methods of the engine. -/
def engine : Catalogue := .ofList engineMethods

/-- Loads the methods of the engine, which the file at `path` stands for. -/
def loadEngine (path : Text) : Logged CatalogueError Catalogue := do
  .report (.catalogueLoaded engine.size path)
  return engine

end Catalogue

end MapScript
