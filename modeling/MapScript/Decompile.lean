import MapScript.Catalogue.Basic
import MapScript.Decoding.CapturedArguments
import MapScript.Decoding.Decode
import MapScript.Layout.Print
import MapScript.Typing.Infer

/-!
# Decompiling a map

The main script of a map is read in a scope of two layers: the methods of the catalogue with the main script itself
outside, what the script declares inside. Then captured arguments are written out, types are inferred and the script is
printed.

How a script is read is a parameter, a function from its address, its bytes and the scope.
-/

namespace MapScript

/-- A way of reading scripts. -/
abbrev ScriptReader := Int → List UInt8 → Scope → Logged Failure (Block × Scope)

/-- The scope in which the main script of a map is read; the main script is known to have no parameters. -/
def mainScope (c : Catalogue) (main : Int) : Except Failure Scope := do
  return (← c.scope.bindAddress main "main" (.script [])).push

/-- A fault of the bytes of a script, seen from outside. -/
def Failure.ofBytecode : Failure → Failure
  | decode cause => bytecode cause
  | failure => failure

/-- The main script of a map with its types, and the scope it is to be printed in. -/
def declareMainBy (reader : ScriptReader) (c : Catalogue) (o : Options) (m : Overlay) :
    Logged Failure (ScriptDeclaration × Scope) := do
  let main := m.entry.main
  let scope ← mainScope c main
  let (block, scope) ← (reader main m.mainBytes scope).mapError Failure.ofBytecode
  let block ← Block.passCaptures o scope block
  let (passes, block, scope) ← Typing.infer o block scope
  .report (.settled m.entry.name passes)
  return (⟨.pointer main, [], block⟩, scope)

/-- The main script of a map with its types, read from the bytes of the map. -/
def declareMain (c : Catalogue) (o : Options) (m : Overlay) : Logged Failure (ScriptDeclaration × Scope) :=
  declareMainBy (decode (some m)) c o m

/-- The text of the main script of a map. -/
def decompile (c : Catalogue) (o : Options) (m : Overlay) : Logged Failure Text := do
  let (declaration, scope) ← declareMain c o m
  ScriptDeclaration.listText [declaration] scope o.indent

end MapScript
