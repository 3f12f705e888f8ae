import MapScript.Main
import MapScript.Scope.Steps
import MapScript.Proofs.Outcome
import MapScript.Proofs.Text.Hex
import MapScript.Proofs.Binary64.Exact
import MapScript.Proofs.DataType.Grammar
import MapScript.Proofs.DataType.Text
import MapScript.Proofs.Operand.Names
import MapScript.Proofs.Operand.Bands
import MapScript.Proofs.Instruction.Encoding
import MapScript.Proofs.Instruction.Capture
import MapScript.Proofs.Scope.Binding
import MapScript.Proofs.Scope.Refinement
import MapScript.Proofs.Scope.Runs
import MapScript.Proofs.Scope.TypedAddresses
import MapScript.Proofs.Script.Parts
import MapScript.Proofs.Script.Items
import MapScript.Proofs.Script.Uses
import MapScript.Proofs.Layout.Printable
import MapScript.Proofs.Layout.Outline
import MapScript.Proofs.Layout.Words
import MapScript.Proofs.Layout.Marks
import MapScript.Proofs.Layout.Shape
import MapScript.Proofs.Layout.Rendering
import MapScript.Proofs.MapTable.Windows
import MapScript.Proofs.Catalogue.Lookup
import MapScript.Proofs.Catalogue.Reading
import MapScript.Proofs.Catalogue.Bindings
import MapScript.Proofs.Decoding.CapturedArguments
import MapScript.Proofs.Decoding.OpenBlocks
import MapScript.Proofs.Decoding.Readings
import MapScript.Proofs.Decoding.Steps
import MapScript.Proofs.Decoding.Acceptance
import MapScript.Proofs.Decoding.Bindings
import MapScript.Proofs.Decoding.Routines
import MapScript.Proofs.Decoding.Reads
import MapScript.Proofs.Decoding.Declared
import MapScript.Proofs.Decoding.Captures
import MapScript.Proofs.Decoding.Prefixes
import MapScript.Proofs.Decoding.FirstFault
import MapScript.Proofs.Typing.Commit
import MapScript.Proofs.Typing.Merging
import MapScript.Proofs.Typing.MergedTypes
import MapScript.Proofs.Typing.Batches
import MapScript.Proofs.Typing.Rules
import MapScript.Proofs.Typing.Runs
import MapScript.Proofs.Typing.Learning
import MapScript.Proofs.Typing.Changes
import MapScript.Proofs.Typing.Termination
import MapScript.Proofs.Typing.Passes
import MapScript.Proofs.Typing.Conflicts
import MapScript.Proofs.Typing.Declarations
import MapScript.Proofs.Typing.FixedPoint
import MapScript.Proofs.Typing.FlatBlocks
import MapScript.Proofs.Typing.Repetition
import MapScript.Proofs.Typing.Soundness
import MapScript.Proofs.Decompile.CallArity
import MapScript.Proofs.Decompile.WrittenForm
import MapScript.Proofs.Decompile.Faults
import MapScript.Proofs.Decompile.Declaration
import MapScript.Proofs.Decompile.ReachableScopes
import MapScript.Proofs.CommandLine.Files
import MapScript.Proofs.CommandLine.Maps
