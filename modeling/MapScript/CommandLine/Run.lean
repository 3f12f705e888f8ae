import MapScript.Catalogue.Engine
import MapScript.CommandLine.Arguments
import MapScript.CommandLine.Files
import MapScript.Decompile
import MapScript.MapTable

/-!
# Runs of the command line

A run reads the catalogue, the image and its map table, and decompiles the maps that are asked for, one behind the other.
A map that is unknown or cannot be decompiled costs a line on the error stream and the exit code, and the run goes on;
every other fault ends the run.

`run` works over any place for files, so that it is the same function on a `FileTree` and on a disk.
-/

namespace MapScript

/-- Why a run breaks off. -/
inductive RunFault
  /-- An argument that names no file where one is needed. -/
  | noPath
  /-- A policy is asked for, but not which one. -/
  | noPolicy
  /-- A map is asked for, but not which one. -/
  | noMap
  | file (cause : FileFault)
  /-- A text file that is not UTF-8. -/
  | encoding
  | catalogue (cause : CatalogueError)
  | table (cause : MapTableError)
  | script (cause : Failure)
  deriving DecidableEq

def RunFault.message : RunFault → Text
  | noPath => "an argument names no file"
  | noPolicy => "[] is not a valid CommitPolicy"
  | noMap => "an argument names no map"
  | file cause => cause.message
  | encoding => "a text file is not UTF-8"
  | catalogue cause => cause.message?.getD "the catalogue is no JSON"
  | table cause => cause.message?.getD "the map table is no JSON or has an entry that is no object"
  | script cause => cause.message?.getD "a script has no written form"

inductive Ending
  | stopped (stop : Stop)
  | missingInput (path : Path)
  | broken (fault : RunFault)
  /-- All maps have been tried; so many of them in vain. -/
  | finished (failures : Nat)
  deriving DecidableEq

/-- The output of a run by streams. -/
structure Printed where
  output : List Text
  errors : List Text
  deriving DecidableEq

namespace Printed

def nothing : Printed := ⟨[], []⟩

def print (p : Printed) (line : Text) : Printed := { p with output := p.output ++ [line] }

def complain (p : Printed) (line : Text) : Printed := { p with errors := p.errors ++ [line] }

/-- Logs warnings, and all other events too when the run is verbose. -/
def log (p : Printed) (verbose : Bool) (events : List Event) : Printed :=
  { p with errors := p.errors ++ (events.filter fun e => verbose || e.isWarning).map Event.line }

end Printed

structure Outcome where
  printed : Printed
  ending : Ending
  deriving DecidableEq

/-- The last line of the output of a run that goes to its end. -/
def durationLine (duration : Text) : Text := "total execution time: " ++ duration

/-- What is left of a request when its inputs are read. -/
structure Job where
  catalogue : Catalogue
  table : MapTable
  policy : CommitPolicy
  verbose : Bool
  outDir : Path
  deriving DecidableEq

/-- What becomes of a map that is asked for. -/
inductive MapResult
  | text (source : Text)
  | refused (line : Text)
  | broken (cause : Failure)
  deriving DecidableEq

namespace Job

/-- The events and the result of decompiling a map. -/
def result (j : Job) (name : Text) : List Event × MapResult :=
  match j.table.map? name with
  | none => ([], .refused (name ++ ": unknown map"))
  | some m =>
    let run := decompile j.catalogue { commitPolicy := j.policy } m
    match run.result with
    | .ok source => (run.events, .text source)
    | .error cause =>
      let reason := cause.message?.getD ""
      if cause.isScriptFault then (run.events, .refused (name ++ ": " ++ reason)) else (run.events, .broken cause)

/-- The file that a map is written to. -/
def file (j : Job) (name : Text) : Path := j.outDir.join (name ++ ".evt.txt")

variable {m : Type → Type} [Monad m] [MonadFiles m]

/-- Decompiles maps in order; `failures` have failed before. -/
def perform (j : Job) : List (Option Text) → Printed → Nat → m Outcome
  | [], p, failures => pure ⟨p, .finished failures⟩
  | none :: _, p, _ => pure ⟨p, .broken .noMap⟩
  | some name :: rest, p, failures => do
    let (events, result) := j.result name
    let p := p.log j.verbose events
    match result with
    | .broken cause => return ⟨p, .broken (.script cause)⟩
    | .refused line => j.perform rest (p.complain line) (failures + 1)
    | .text source =>
      match ← MonadFiles.writeText (j.file name) source with
      | .error cause => return ⟨p, .broken (.file cause)⟩
      | .ok () => j.perform rest (p.print (name ++ " written to " ++ (j.file name).text)) failures

end Job

section

variable {m : Type → Type} [Monad m] [MonadFiles m]

/-- The text of a file. -/
def readText (path : Path) : m (Except RunFault String) := do
  match ← MonadFiles.readBytes path with
  | .error cause => return .error (.file cause)
  | .ok bytes =>
    match String.fromUTF8? ⟨bytes.toArray⟩ with
    | some text => return .ok text
    | none => return .error .encoding

/-- The first fault of the paths of the inputs: one that is missing or cannot be looked for, or no path at all. -/
def checkInputs : List (Option Path) → m (Option Ending)
  | [] => return none
  | none :: _ => return some (.broken .noPath)
  | some path :: rest => do
    match ← MonadFiles.pathExists path with
    | .ok true => checkInputs rest
    | .ok false => return some (.missingInput path)
    | .error cause => return some (.broken (.file cause))

/-- Reads a catalogue; the one of the engine goes by `enginePath`. -/
def readCatalogue (enginePath : Text) : CatalogueSource → m (Logged RunFault Catalogue)
  | .engine => return (Catalogue.loadEngine enginePath).mapError .catalogue
  | .file none => return .fail .noPath
  | .file (some path) => do
    match ← readText path with
    | .error fault => return .fail fault
    | .ok text => return (Catalogue.ofText path.text text).mapError .catalogue

/-- Reads an image and its map table. -/
def readTable (image table : Path) : m (Except RunFault MapTable) := do
  match ← MonadFiles.readBytes image with
  | .error cause => return .error (.file cause)
  | .ok bytes =>
    match ← readText table with
    | .error fault => return .error fault
    | .ok text => return (MapTable.ofText bytes text).mapError .table

/-- A run whose inputs exist. -/
def runOn (enginePath : Text) (a : Arguments) (image table : Path) : m Outcome := do
  let catalogue ← readCatalogue enginePath a.catalogue
  let p := Printed.nothing.log a.verbose catalogue.events
  match catalogue.result with
  | .error fault => return ⟨p, .broken fault⟩
  | .ok catalogue =>
    match ← readTable image table with
    | .error fault => return ⟨p, .broken fault⟩
    | .ok table =>
      let some policy := a.policy | return ⟨p, .broken .noPolicy⟩
      let outDir := a.outDir.getD image.parent
      match ← MonadFiles.makeDirectory outDir with
      | .error cause => return ⟨p, .broken (.file cause)⟩
      | .ok () =>
        let job : Job := ⟨catalogue, table, policy, a.verbose, outDir⟩
        job.perform (if a.maps.isEmpty then table.names.map some else a.maps) p 0

/-- A run with these arguments; the catalogue of the engine goes by `enginePath`. -/
def run (enginePath : Text) (arguments : List Text) : m Outcome := do
  match Arguments.ofList arguments with
  | .error stop => return ⟨.nothing, .stopped stop⟩
  | .ok a =>
    match ← checkInputs ([a.image, a.table] ++ a.catalogue.paths) with
    | some ending => return ⟨.nothing, ending⟩
    | none =>
      match a.image, a.table with
      | some image, some table => runOn enginePath a image table
      | _, _ => return ⟨.nothing, .broken .noPath⟩

end

/-- The exit code of a run that went to its end. -/
def exitCode (failures : Nat) : Nat := if failures = 0 then 0 else 1

end MapScript
