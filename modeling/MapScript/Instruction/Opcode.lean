/-!
# Operation codes

The operations of the script machine. `Opcode.ofCode?` is the inverse of `Opcode.code`: codes of different operations
differ, and a code that no operation has is unknown.
-/

namespace MapScript

/-- Relations that branches and switch arms test. -/
inductive Relation
  | equal
  | unequal
  | less
  | greater
  | atMost
  | atLeast
  deriving DecidableEq, Repr

def Relation.symbol : Relation → String
  | equal => "=="
  | unequal => "!="
  | less => "<"
  | greater => ">"
  | atMost => "<="
  | atLeast => ">="

/-- Operations that combine a variable with a value; those on fixed point numbers have codes of their own. -/
inductive Arithmetic
  | add
  | sub
  | mul
  | div
  | mod
  | addFixed
  | subFixed
  | mulFixed
  | divFixed
  deriving DecidableEq, Repr

def Arithmetic.symbol : Arithmetic → String
  | add | addFixed => "+="
  | sub | subFixed => "-="
  | mul | mulFixed => "*="
  | div | divFixed => "/="
  | mod => "%="

inductive Opcode
  | finish
  | ret
  | label
  | goto
  | loop
  | endLoop
  | breakLoop
  | wait
  | waitSeconds
  | branch (test : Relation)
  | branchMask
  | branchNotMask
  | otherwise
  | endBranch
  | switch
  | switchConst
  | arm (test : Relation)
  | armDefault
  | armRange
  | breakSwitch
  | endSwitch
  | set
  | setConst
  | setFixed
  | arithmetic (op : Arithmetic)
  | call
  | exec
  | execWait
  | thread
  | endThread
  | childThread
  | endChildThread
  deriving DecidableEq, Repr

namespace Opcode

def code : Opcode → Nat
  | finish => 0x01
  | ret => 0x02
  | label => 0x03
  | goto => 0x04
  | loop => 0x05
  | endLoop => 0x06
  | breakLoop => 0x07
  | wait => 0x08
  | waitSeconds => 0x09
  | branch .equal => 0x0A
  | branch .unequal => 0x0B
  | branch .less => 0x0C
  | branch .greater => 0x0D
  | branch .atMost => 0x0E
  | branch .atLeast => 0x0F
  | branchMask => 0x10
  | branchNotMask => 0x11
  | otherwise => 0x12
  | endBranch => 0x13
  | switch => 0x14
  | switchConst => 0x15
  | arm .equal => 0x16
  | arm .unequal => 0x17
  | arm .less => 0x18
  | arm .greater => 0x19
  | arm .atMost => 0x1A
  | arm .atLeast => 0x1B
  | armDefault => 0x1C
  | armRange => 0x21
  | breakSwitch => 0x22
  | endSwitch => 0x23
  | set => 0x24
  | setConst => 0x25
  | setFixed => 0x26
  | arithmetic .add => 0x27
  | arithmetic .sub => 0x28
  | arithmetic .mul => 0x29
  | arithmetic .div => 0x2A
  | arithmetic .mod => 0x2B
  | arithmetic .addFixed => 0x2C
  | arithmetic .subFixed => 0x2D
  | arithmetic .mulFixed => 0x2E
  | arithmetic .divFixed => 0x2F
  | call => 0x43
  | exec => 0x44
  | execWait => 0x46
  | thread => 0x56
  | endThread => 0x57
  | childThread => 0x58
  | endChildThread => 0x59

/-- Every operation, in the order of the codes. -/
def all : List Opcode :=
  [finish, ret, label, goto, loop, endLoop, breakLoop, wait, waitSeconds] ++
  [.equal, .unequal, .less, .greater, .atMost, .atLeast].map branch ++
  [branchMask, branchNotMask, otherwise, endBranch, switch, switchConst] ++
  [.equal, .unequal, .less, .greater, .atMost, .atLeast].map arm ++
  [armDefault, armRange, breakSwitch, endSwitch, set, setConst, setFixed] ++
  [.add, .sub, .mul, .div, .mod, .addFixed, .subFixed, .mulFixed, .divFixed].map arithmetic ++
  [call, exec, execWait, thread, endThread, childThread, endChildThread]

/-- The operation with a code. -/
def ofCode? (code : Nat) : Option Opcode := all.find? (·.code = code)

theorem ofCode?_code (op : Opcode) : ofCode? op.code = some op := by
  cases op with
  | branch r => cases r <;> rfl
  | arm r => cases r <;> rfl
  | arithmetic a => cases a <;> rfl
  | _ => rfl

theorem code_eq_of_ofCode? {code : Nat} {op : Opcode} (h : ofCode? code = some op) : op.code = code := by
  simpa using List.find?_some h

theorem ofCode?_eq_some_iff {code : Nat} {op : Opcode} : ofCode? code = some op ↔ op.code = code :=
  ⟨code_eq_of_ofCode?, fun h => h ▸ ofCode?_code op⟩

end Opcode

end MapScript
