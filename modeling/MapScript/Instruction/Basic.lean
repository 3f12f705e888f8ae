import MapScript.Instruction.Opcode
import MapScript.Slice

/-!
# Instructions

A script is a sequence of big-endian words of four bytes. An instruction is the word of its code, the word that counts
its operands, and that many signed words. `listing` reads instructions one behind the other up to and including the first
one that finishes a script, or as long as the words hold a whole instruction; `readAt?` reads the one at a position.
-/

namespace MapScript

/-- An instruction at an address; its code need not be that of a known operation. -/
structure Instruction where
  address : Int
  code : UInt32
  operands : List Int32
  deriving DecidableEq

namespace Instruction

/-- Bytes that the instruction takes. -/
def size (i : Instruction) : Nat := 4 * (2 + i.operands.length)

def opcode? (i : Instruction) : Option Opcode := Opcode.ofCode? i.code.toNat

/-- Whether the instruction finishes its script. -/
def isFinish (i : Instruction) : Bool := i.opcode? = some .finish

end Instruction

/-- The number with these bytes, the most significant first. -/
def bigEndian (bytes : List UInt8) : Nat := bytes.foldl (fun n b => n * 256 + b.toNat) 0

/-- The words of a sequence of bytes; up to three bytes behind the last one belong to none. -/
def words : List UInt8 → List UInt32
  | a :: b :: c :: d :: rest => UInt32.ofNat (bigEndian [a, b, c, d]) :: words rest
  | _ => []

/-- The first instruction in a sequence of words, which starts at `address`, and the words behind it. -/
def nextInstruction? (address : Int) : List UInt32 → Option (Instruction × List UInt32)
  | code :: count :: rest =>
    if count.toNat ≤ rest.length then
      some (⟨address, code, (rest.take count.toNat).map UInt32.toInt32⟩, rest.drop count.toNat)
    else none
  | _ => none

theorem length_lt_of_nextInstruction? {address : Int} {ws rest : List UInt32} {i : Instruction}
    (h : nextInstruction? address ws = some (i, rest)) : rest.length < ws.length := by
  simp only [nextInstruction?] at h
  split at h
  · split at h
    · simp only [Option.some.injEq, Prod.mk.injEq] at h
      simp only [← h.2, List.length_drop, List.length_cons]
      omega
    · cases h
  · cases h

/-- Instructions of a sequence of words, which starts at `address`. -/
def listing (address : Int) (ws : List UInt32) : List Instruction :=
  match _ : nextInstruction? address ws with
  | none => []
  | some (i, rest) => if i.isFinish then [i] else i :: listing (address + i.size) rest
termination_by ws.length
decreasing_by exact length_lt_of_nextInstruction? ‹_›

/-- Instructions of the script in `bytes`, which starts at `address`. -/
def instructions (address : Int) (bytes : List UInt8) : List Instruction := listing address (words bytes)

/-- The number that `bytes` denote in two's complement of their own width. -/
def signedBigEndian (bytes : List UInt8) : Int :=
  let range := 1 <<< (8 * bytes.length)
  if 2 * bigEndian bytes < range then bigEndian bytes else (bigEndian bytes : Int) - range

/-- The instruction at position `offset` of `data`, whose first byte is at address `base`. Positions are those of
slices, so that a word may be cut short by the end of the data when the offset is negative. -/
def readAt? (data : List UInt8) (offset base : Int) : Option Instruction :=
  let word (start : Int) := slice data start (start + 4)
  if data.length < offset + 8 then none
  else
    let count := bigEndian (word (offset + 4))
    if data.length < offset + 4 * (2 + count) then none
    else
      some ⟨base + offset, UInt32.ofNat (bigEndian (word offset)),
        (List.range count).map fun (k : Nat) => Int32.ofInt (signedBigEndian (word (offset + 8 + 4 * k)))⟩

end MapScript
