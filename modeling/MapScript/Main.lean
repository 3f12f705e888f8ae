import MapScript.CommandLine.Run

/-!
# The program

Runs the command line on the files of the machine, prints what the run has to say and ends with its exit code.
-/

namespace MapScript

/-- A file fault as a value; faults of other kinds are thrown on. -/
def catchFault {α : Type} (action : IO α) : IO (Except FileFault α) := do
  try
    return .ok (← action)
  catch
    | .noFileOrDirectory .. => return .error .notFound
    | .inappropriateType .. => return .error .isDirectory
    | .alreadyExists .. => return .error .occupied
    | .invalidArgument .. => return .error .tooLong
    | e => throw e

/-- A text with the replacement character in the place of surrogates. -/
def Text.printed (t : Text) : String := String.ofList (t.points.map fun p => p.toChar?.getD '\ufffd')

/-- Does something with the path of a file, if it is one. -/
def onPath {α : Type} (p : Path) (action : String → IO α) : IO (Except FileFault α) :=
  match p.fileNames with
  | .error fault => return .error fault
  | .ok _ => catchFault (action p.text.printed)

instance : MonadFiles IO where
  pathExists p := do
    match ← onPath p fun path => IO.FS.Handle.mk path .read with
    | .ok _ => return .ok true
    | .error .tooLong => return .error .tooLong
    | .error _ => return .ok false
  readBytes p := onPath p fun path => return (← IO.FS.readBinFile path).toList
  makeDirectory p := onPath p fun path => IO.FS.createDirAll path
  writeText p text :=
    match text.utf8? with
    | some bytes => onPath p fun path => IO.FS.writeBinFile path ⟨bytes.toArray⟩
    | none => return .error .unencodable

def usage : String :=
  "usage: map_script [-h] [--map MAPS] [--out-dir OUT_DIR] [--catalogue CATALOGUE] " ++
    "[--commit-policy POLICY] [--verbose] image map_table"

/-- Prints the lines of a run. -/
def Printed.show (p : Printed) : IO Unit := do
  for line in p.errors do IO.eprintln line.printed
  for line in p.output do IO.println line.printed

/-- Seconds with two places. -/
def secondsText (milliseconds : Nat) : String :=
  let hundredths := (milliseconds + 5) / 10
  let places := Nat.toDigits 10 (hundredths % 100)
  s!"{hundredths / 100}." ++ String.ofList (List.replicate (2 - places.length) '0' ++ places) ++ "s"

end MapScript

open MapScript in
/-- Runs the command line. -/
def main (arguments : List String) : IO UInt32 := do
  let start ← IO.monoMsNow
  let outcome ← (run "methods.json" (arguments.map Text.ofString) : IO Outcome)
  outcome.printed.show
  match outcome.ending with
  | .stopped .help => IO.println usage; return 0
  | .stopped .usage => IO.eprintln usage; return 2
  | .missingInput path => IO.eprintln s!"missing input file: {path.text.printed}"; return 1
  | .broken fault => IO.eprintln fault.message.printed; return 1
  | .finished failures =>
    IO.println (durationLine (secondsText ((← IO.monoMsNow) - start))).printed
    return UInt32.ofNat (exitCode failures)
