import MapScript.Binary64.Basic
import MapScript.DataType.Basic
import MapScript.Text.Basic

/-!
# Scripts as trees

Expressions and statements of a script. Blocks are lists of statements; the arms of a switch hold a block each. The
operators of assignments, comparisons and arms are kept as they are written; an arm is a comparison, `range` or `default`.
-/

namespace MapScript

inductive Expr
  | identifier (name : Text)
  | int (value : Int)
  | bool (value : Bool)
  | float (value : Binary64)
  | pointer (address : Int)
  | comparison (lhs : Expr) (operator : String) (rhs : Expr)
  deriving DecidableEq, Inhabited

/-- What a call calls: a method by its name or by its address, or one that is not known. -/
inductive Callee
  | named (name : Text)
  | pointer (address : Int)
  | unknown
  deriving DecidableEq, Repr

/-- A spawned script runs beside its caller. -/
inductive CallKind
  | call
  | spawn
  deriving DecidableEq, Repr

mutual

inductive Stmt
  | declare (type : DataType) (name : Text) (value : Option Expr)
  | assign (name : Text) (operator : String) (value : Expr)
  | call (callee : Callee) (arguments : List Expr) (kind : CallKind)
  | ret
  | breakLoop
  | breakSwitch
  | label (index : Int)
  | goto (index : Int)
  | wait (amount : Expr) (seconds : Bool)
  | branch (condition : Expr) (body : List Stmt)
  | branchElse (condition : Expr) (body otherwise : List Stmt)
  | loop (count : Option Expr) (body : List Stmt)
  | switch (value : Expr) (arms : List Arm)
  | thread (child : Bool) (body : List Stmt)

/-- An arm of a switch. -/
structure Arm where
  operator : String
  values : List Expr
  body : List Stmt

end

instance : Inhabited Stmt := ⟨.ret⟩

abbrev Block := List Stmt

/-- The blocks right inside a statement. -/
def Stmt.blocks : Stmt → List Block
  | branch _ body | loop _ body | thread _ body => [body]
  | branchElse _ body otherwise => [body, otherwise]
  | switch _ arms => arms.map Arm.body
  | declare .. | assign .. | call .. | ret | breakLoop | breakSwitch | label _ | goto _ | wait .. => []

mutual

/-- How many blocks lie inside each other in a statement. -/
def Stmt.depth : Stmt → Nat
  | .branch _ body | .loop _ body | .thread _ body => Block.depth body + 1
  | .branchElse _ body otherwise => max (Block.depth body) (Block.depth otherwise) + 1
  | .switch _ arms => Arm.depths arms + 1
  | _ => 0

def Block.depth : List Stmt → Nat
  | [] => 0
  | s :: rest => max s.depth (Block.depth rest)

def Arm.depths : List Arm → Nat
  | [] => 0
  | ⟨_, _, body⟩ :: rest => max (Block.depth body) (Arm.depths rest)

end

theorem Arm.depth_body_le {arms : List Arm} {a : Arm} (h : a ∈ arms) : Block.depth a.body ≤ Arm.depths arms := by
  induction arms with
  | nil => cases h
  | cons b rest ih =>
    obtain ⟨_, _, body⟩ := b
    rw [Arm.depths]
    rcases List.mem_cons.1 h with rfl | h
    · exact Nat.le_max_left ..
    · exact Nat.le_trans (ih h) (Nat.le_max_right ..)

/-- A block inside a statement is less deep than the statement. -/
theorem Stmt.depth_lt_of_mem_blocks {s : Stmt} {b : Block} (h : b ∈ s.blocks) : Block.depth b < s.depth := by
  cases s with
  | switch value arms =>
    obtain ⟨a, ha, rfl⟩ := List.mem_map.1 h
    have := Arm.depth_body_le ha
    rw [Stmt.depth]; omega
  | _ => simp only [Stmt.blocks, List.mem_cons, List.not_mem_nil, or_false] at h <;> simp only [Stmt.depth] <;> grind

/-- A property of blocks holds when it holds of the empty block and passes from the blocks inside a statement and the
block behind it to the block that starts with it. -/
theorem Block.induction {motive : Block → Prop} (nil : motive [])
    (cons : ∀ (s : Stmt) (rest : Block), (∀ b ∈ s.blocks, motive b) → motive rest → motive (s :: rest)) (b : Block) :
    motive b := by
  suffices h : ∀ n, ∀ b : Block, Block.depth b ≤ n → motive b from h _ b (Nat.le_refl _)
  intro n
  induction n with
  | zero =>
    intro b
    induction b with
    | nil => exact fun _ => nil
    | cons s rest ih =>
      intro h
      rw [Block.depth] at h
      exact cons s rest (fun b hb => absurd (s.depth_lt_of_mem_blocks hb) (by omega)) (ih (by omega))
  | succ n hn =>
    intro b
    induction b with
    | nil => exact fun _ => nil
    | cons s rest ih =>
      intro h
      rw [Block.depth] at h
      exact cons s rest (fun b hb => hn b (by have := s.depth_lt_of_mem_blocks hb; omega)) (ih (by omega))

end MapScript
