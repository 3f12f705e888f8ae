import Mathlib.Order.Bounds.Basic
import Mathlib.Data.Int.Order.Basic
import MapScript.Instruction.Capture

/-!
# What the scan for captured words finds

A word is captured when some instruction reads it and none in front of this one writes it (`mem_capturedFrom_iff`). The
number of captured words is one past the greatest of them (`isOnePast_capturedWords`). Which words an instruction reads and
writes is a table of positions among its operands (`mem_localWords_reads_iff`, `mem_localWords_writes_iff`), so that the
number can be told from the instructions alone (`capturedWords_dataFlow`).
-/

namespace MapScript

/-! ### Reading before writing -/

/-- Some element of a sequence reads, and none in front of it writes. -/
inductive ReadsFirst {α : Type} (reads writes : α → Prop) : List α → Prop
  | here {a : α} {rest : List α} : reads a → ReadsFirst reads writes (a :: rest)
  | later {a : α} {rest : List α} : ¬writes a → ReadsFirst reads writes rest → ReadsFirst reads writes (a :: rest)

namespace ReadsFirst

variable {α : Type} {reads reads' writes : α → Prop} {a : α} {l l' : List α}

theorem cons_iff : ReadsFirst reads writes (a :: l) ↔ reads a ∨ ¬writes a ∧ ReadsFirst reads writes l := by
  constructor
  · rintro (ha | ⟨ha, h⟩)
    · exact .inl ha
    · exact .inr ⟨ha, h⟩
  · rintro (ha | ⟨ha, h⟩)
    · exact .here ha
    · exact .later ha h

theorem exists_mem (h : ReadsFirst reads writes l) : ∃ a ∈ l, reads a := by
  induction h with
  | here ha => exact ⟨_, List.mem_cons_self .., ha⟩
  | later _ _ ih =>
    obtain ⟨a, ha, hreads⟩ := ih
    exact ⟨a, List.mem_cons_of_mem _ ha, hreads⟩

/-- Reading in the second one of two sequences counts when the first one does not write. -/
theorem append_iff : ReadsFirst reads writes (l ++ l') ↔
    ReadsFirst reads writes l ∨ (∀ a ∈ l, ¬writes a) ∧ ReadsFirst reads writes l' := by
  induction l with
  | nil => exact ⟨fun h => .inr ⟨nofun, h⟩, fun h => h.resolve_left nofun |>.2⟩
  | cons a l ih =>
    rw [List.cons_append, cons_iff, cons_iff, ih, List.forall_mem_cons]
    tauto

theorem singleton_iff : ReadsFirst reads writes [a] ↔ reads a := by
  rw [cons_iff]
  exact ⟨fun h => h.resolve_right nofun, .inl⟩

end ReadsFirst

/-! ### The scan -/

theorem mem_localWords {ws : List Int32} {index : Int} :
    index ∈ localWords ws ↔ ∃ w ∈ ws, Operand.ofInt w.toInt = .variable ⟨.localWord, index⟩ := by
  rw [localWords, List.mem_filterMap]
  refine exists_congr fun w => and_congr_right fun _ => ?_
  split
  · rename_i other hw
    rw [hw]
    simp
  · rename_i hw
    exact ⟨nofun, fun h => absurd h (hw index)⟩

/-- The scan finds the words that are read before they are written, other than those that are written already. -/
theorem mem_capturedFrom_iff {written : List Int} {is : List Instruction} {index : Int} :
    index ∈ capturedFrom written is ↔ index ∉ written ∧
      ReadsFirst (fun i => index ∈ localWords i.reads) (fun i => index ∈ localWords i.writes) is := by
  induction is generalizing written with
  | nil => exact ⟨nofun, fun h => nomatch h.2⟩
  | cons i rest ih =>
    rw [capturedFrom, List.mem_append, List.mem_filter, ih, ReadsFirst.cons_iff, List.mem_append, decide_eq_true_iff]
    tauto

/-- The number is one past the greatest integer of a set, or zero if the set is empty. -/
def IsOnePast (S : Set Int) (n : Int) : Prop := IsGreatest S (n - 1) ∨ S = ∅ ∧ n = 0

theorem isOnePast_capturedWords (address : Int) (bytes : List UInt8) :
    IsOnePast {index | ReadsFirst (fun i => index ∈ localWords i.reads) (fun i => index ∈ localWords i.writes)
      (instructions address bytes)} (capturedWords address bytes) := by
  have hmem : ∀ index, index ∈ capturedFrom [] (instructions address bytes) ↔
      ReadsFirst (fun i => index ∈ localWords i.reads) (fun i => index ∈ localWords i.writes)
        (instructions address bytes) := by
    intro index
    rw [mem_capturedFrom_iff]
    exact and_iff_right List.not_mem_nil
  unfold capturedWords
  cases hmax : (capturedFrom [] (instructions address bytes)).max? with
  | some greatest =>
    rw [List.max?_eq_some_iff] at hmax
    left
    rw [Int.add_sub_cancel]
    exact ⟨(hmem greatest).1 hmax.1, fun index h => hmax.2 index ((hmem index).2 h)⟩
  | none =>
    rw [List.max?_eq_none_iff] at hmax
    refine .inr ⟨Set.eq_empty_of_forall_notMem fun index h => ?_, rfl⟩
    have hnone := (hmem index).2 h
    rw [hmax] at hnone
    cases hnone

/-! ### Words that instructions read and write -/

/-- Reading first is reading at a place in front of which nothing writes. -/
theorem ReadsFirst.iff_getElem? {α : Type} {reads writes : α → Prop} {l : List α} : ReadsFirst reads writes l ↔
    ∃ (k : Nat) (a : α), l[k]? = some a ∧ reads a ∧ ∀ (j : Nat) (b : α), j < k → l[j]? = some b → ¬writes b := by
  constructor
  · intro h
    induction h with
    | @here a rest ha => exact ⟨0, a, rfl, ha, fun j b hj => absurd hj (Nat.not_lt_zero j)⟩
    | @later a rest ha _ ih =>
      obtain ⟨k, b, hb, hreads, hwrites⟩ := ih
      refine ⟨k + 1, b, hb, hreads, fun j c hj hc => ?_⟩
      cases j with
      | zero =>
        cases hc
        exact ha
      | succ j => exact hwrites j c (Nat.lt_of_succ_lt_succ hj) hc
  · rintro ⟨k, a, ha, hreads, hwrites⟩
    induction l generalizing k with
    | nil =>
      rw [List.getElem?_nil] at ha
      cases ha
    | cons b rest ih =>
      cases k with
      | zero =>
        cases ha
        exact .here hreads
      | succ k =>
        refine .later (hwrites 0 b (Nat.succ_pos k) rfl) (ih k ha fun j c hj hc => ?_)
        exact hwrites (j + 1) c (Nat.succ_lt_succ hj) hc

namespace Instruction

/-- Whether the instruction gives a variable a value, and has the two operands that this takes. -/
def Assigns (i : Instruction) : Prop :=
  2 ≤ i.operands.length ∧ (i.opcode? = some .set ∨ i.opcode? = some .setFixed ∨ i.opcode? = some .setConst ∨
    ∃ op, i.opcode? = some (.arithmetic op))

/-- The positions of the operands that an instruction reads. -/
inductive ReadsOperand (i : Instruction) : Nat → Prop
  | value : i.Assigns → i.opcode? = some .set ∨ i.opcode? = some .setFixed → ReadsOperand i 1
  | combined {op : Arithmetic} {position : Nat} : i.Assigns → i.opcode? = some (.arithmetic op) → position < 2 →
    ReadsOperand i position
  | any {position : Nat} : ¬i.Assigns → ReadsOperand i position

/-- Whether the operand at a position is there and stands for a local word. -/
def HasWord (i : Instruction) (position : Nat) (index : Int) : Prop :=
  ∃ w, i.operands[position]? = some w ∧ Operand.ofInt w.toInt = .variable ⟨.localWord, index⟩

def ReadsWord (i : Instruction) (index : Int) : Prop := ∃ position, i.ReadsOperand position ∧ i.HasWord position index

/-- Whether the instruction gives a local word a value, which is the one that its first operand stands for. -/
def WritesWord (i : Instruction) (index : Int) : Prop := i.Assigns ∧ i.HasWord 0 index

variable {i : Instruction} {index : Int}

/-- An instruction reads all of its operands and writes none, or it has at least two and assigns the first. -/
private theorem accesses_cases (i : Instruction) : ¬i.Assigns ∧ i.reads = i.operands ∧ i.writes = [] ∨
    i.Assigns ∧ ∃ a b rest, i.operands = a :: b :: rest ∧ i.writes = [a] ∧
      ((i.opcode? = some .set ∨ i.opcode? = some .setFixed) ∧ i.reads = [b] ∨
        i.opcode? = some .setConst ∧ i.reads = [] ∨ (∃ op, i.opcode? = some (.arithmetic op)) ∧ i.reads = [a, b]) := by
  unfold reads writes Assigns
  match i.operands with
  | [] | [_] => cases i.opcode? <;> simp
  | a :: b :: rest =>
    cases i.opcode? with
    | none => simp
    | some op => cases op <;> simp [Opcode.isSet, Opcode.isArithmetic]

theorem mem_localWords_reads_iff : index ∈ localWords i.reads ↔ i.ReadsWord index := by
  rw [mem_localWords]
  rcases i.accesses_cases with ⟨hno, hreads, -⟩ | ⟨hyes, a, b, rest, hoperands, -, hkind⟩
  · rw [hreads]
    constructor
    · rintro ⟨w, hw, hword⟩
      obtain ⟨position, hposition⟩ := List.mem_iff_getElem?.1 hw
      exact ⟨position, .any hno, w, hposition, hword⟩
    · rintro ⟨position, -, w, hposition, hword⟩
      exact ⟨w, List.mem_of_getElem? hposition, hword⟩
  · have hfirst : ∀ {w}, i.operands[0]? = some w ↔ w = a := by simp [hoperands, eq_comm]
    have hsecond : ∀ {w}, i.operands[1]? = some w ↔ w = b := by simp [hoperands, eq_comm]
    rcases hkind with ⟨hset, hreads⟩ | ⟨hconst, hreads⟩ | ⟨⟨op, hop⟩, hreads⟩
    · rw [hreads]
      constructor
      · rintro ⟨w, hw, hword⟩
        exact ⟨1, .value hyes hset, w, hsecond.2 (List.mem_singleton.1 hw), hword⟩
      · rintro ⟨position, hposition, w, hw, hword⟩
        cases hposition with
        | value => exact ⟨w, List.mem_singleton.2 (hsecond.1 hw), hword⟩
        | combined _ hop => rcases hset with hset | hset <;> rw [hset] at hop <;> cases hop
        | any hno => exact absurd hyes hno
    · rw [hreads]
      constructor
      · rintro ⟨w, hw, -⟩
        cases hw
      · rintro ⟨position, hposition, -⟩
        cases hposition with
        | value _ hset => rcases hset with hset | hset <;> rw [hset] at hconst <;> cases hconst
        | combined _ hop =>
          rw [hconst] at hop
          cases hop
        | any hno => exact absurd hyes hno
    · rw [hreads]
      constructor
      · rintro ⟨w, hw, hword⟩
        rcases List.mem_cons.1 hw with rfl | hw
        · exact ⟨0, .combined hyes hop Nat.two_pos, w, hfirst.2 rfl, hword⟩
        · exact ⟨1, .combined hyes hop Nat.one_lt_two, w, hsecond.2 (List.mem_singleton.1 hw), hword⟩
      · rintro ⟨position, hposition, w, hw, hword⟩
        cases hposition with
        | value _ hset => rcases hset with hset | hset <;> rw [hset] at hop <;> cases hop
        | combined _ _ hlt =>
          match position, hlt with
          | 0, _ => exact ⟨w, by rw [hfirst.1 hw]; exact List.mem_cons_self .., hword⟩
          | 1, _ => exact ⟨w, by rw [hsecond.1 hw]; exact List.mem_cons_of_mem _ (List.mem_cons_self ..), hword⟩
        | any hno => exact absurd hyes hno

theorem mem_localWords_writes_iff : index ∈ localWords i.writes ↔ i.WritesWord index := by
  rw [mem_localWords]
  rcases i.accesses_cases with ⟨hno, -, hwrites⟩ | ⟨hyes, a, b, rest, hoperands, hwrites, -⟩
  · rw [hwrites]
    constructor
    · rintro ⟨w, hw, -⟩
      cases hw
    · exact fun h => absurd h.1 hno
  · have hfirst : ∀ {w}, i.operands[0]? = some w ↔ w = a := by simp [hoperands, eq_comm]
    rw [hwrites]
    constructor
    · rintro ⟨w, hw, hword⟩
      exact ⟨hyes, w, hfirst.2 (List.mem_singleton.1 hw), hword⟩
    · rintro ⟨-, w, hw, hword⟩
      exact ⟨w, List.mem_singleton.2 (hfirst.1 hw), hword⟩

end Instruction

/-- The number of captured words is one past the greatest index of a local word that some instruction reads and no earlier
one writes. -/
theorem capturedWords_dataFlow (address : Int) (bytes : List UInt8) :
    IsOnePast {index | ∃ (k : Nat) (i : Instruction), (instructions address bytes)[k]? = some i ∧ i.ReadsWord index ∧
      ∀ (j : Nat) (earlier : Instruction), j < k → (instructions address bytes)[j]? = some earlier →
        ¬earlier.WritesWord index}
      (capturedWords address bytes) := by
  have h := isOnePast_capturedWords address bytes
  simp only [Instruction.mem_localWords_reads_iff, Instruction.mem_localWords_writes_iff, ReadsFirst.iff_getElem?] at h
  exact h

end MapScript
