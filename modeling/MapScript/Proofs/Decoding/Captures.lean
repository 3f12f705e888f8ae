import MapScript.Proofs.Decoding.Declared
import MapScript.Proofs.Instruction.Capture
import MapScript.Proofs.Instruction.Encoding

/-!
# Captured words of scripts that are read

The scan for captured words goes through the instructions, and a script that is read has a tree. Both come to a local word
at the same places: every name that an item reads is that of an operand that the scan counts, and what an item writes the
scan takes to be written (`Conveys.forall₂_scans`). But the scan counts more: operands that are taken as they are, such as
labels, masks and constants, and operands beyond those that the operation has (`Opcode.idle`). So it finds the words that
the tree reads first together with those among such operands (`capturedWords_of_decode`).
-/

namespace MapScript

namespace Opcode

/-- The operand that an operation takes for a name: the variable that a value is combined with, or what is called. -/
def named (op : Opcode) (ws : List Int32) : List Int32 := if op.isArithmetic || op.isCall then ws.take 1 else []

/-- Operands that the scan counts although nothing reads them. -/
def idle (op : Opcode) (ws : List Int32) : List Int32 :=
  if op.writes then [] else ws.drop (op.named ws ++ op.evaluated ws).length

end Opcode

namespace Instruction

/-- Operands that the scan counts although nothing reads them. -/
def idle (i : Instruction) : List Int32 :=
  match i.opcode? with
  | some op => op.idle i.operands
  | none => i.operands

theorem idle_eq {i : Instruction} {op : Opcode} (hop : i.opcode? = some op) : i.idle = op.idle i.operands := by
  rw [idle, hop]

end Instruction

/-! ### What the scan counts -/

section

variable {i : Instruction} {op : Opcode} {w : Int32}

private theorem named_append_evaluated_append_idle (op : Opcode) (hwrites : op.writes = false) (ws : List Int32) :
    op.named ws ++ op.evaluated ws ++ op.idle ws = ws := by
  have htake : ∃ n, op.named ws ++ op.evaluated ws = ws.take n := by
    cases op with
    | call => exact ⟨ws.length, (List.take_append_drop 1 ws).trans List.take_length.symm⟩
    | loop | wait | waitSeconds | branchMask | branchNotMask | switch | arm _ => exact ⟨1, rfl⟩
    | branch _ | armRange => exact ⟨2, rfl⟩
    | exec | execWait => exact ⟨1, List.append_nil _⟩
    | set | setConst | setFixed | arithmetic _ => cases hwrites
    | _ => exact ⟨0, rfl⟩
  obtain ⟨n, hn⟩ := htake
  rw [Opcode.idle, hwrites, if_neg Bool.false_ne_true, hn, List.length_take]
  by_cases hle : n ≤ ws.length
  · rw [Nat.min_eq_left hle, List.take_append_drop]
  · rw [Nat.min_eq_right (by omega), List.drop_length, List.append_nil, List.take_of_length_le (by omega)]

private theorem Opcode.writes_eq_false_iff : op.writes = false ↔ op.isSet = false ∧ op.isArithmetic = false :=
  Bool.or_eq_false_iff

private theorem reads_eq_operands (hop : i.opcode? = some op) (hwrites : op.writes = false) : i.reads = i.operands := by
  obtain ⟨hset, harithmetic⟩ := Opcode.writes_eq_false_iff.1 hwrites
  rw [Instruction.reads, hop]
  generalize i.operands = ws
  split
  · rename_i hconst
    cases hconst
    cases hwrites
  · rename_i hsome
    cases hsome
    rw [hset, harithmetic]
    rfl
  · rfl

private theorem exists_cons_cons {ws : List Int32} (h : 2 ≤ ws.length) : ∃ a b rest, ws = a :: b :: rest := by
  match ws, h with
  | a :: b :: rest, _ => exact ⟨a, b, rest, rfl⟩

private theorem two_le_arity (hwrites : op.writes = true) : op.arity = 2 := by
  cases op <;> first | rfl | cases hwrites

/-- With enough operands, the scan counts those that are taken for a name or evaluated, and the idle ones. -/
theorem Instruction.mem_reads_iff (hop : i.opcode? = some op) (harity : op.arity ≤ i.operands.length) :
    w ∈ i.reads ↔ w ∈ op.named i.operands ++ op.evaluated i.operands ∨ w ∈ i.idle := by
  rw [Instruction.idle_eq hop]
  cases hwrites : op.writes with
  | false =>
    rw [reads_eq_operands hop hwrites, ← List.mem_append, named_append_evaluated_append_idle op hwrites]
  | true =>
    rw [two_le_arity hwrites] at harity
    obtain ⟨a, b, rest, hoperands⟩ := exists_cons_cons harity
    have hidle : op.idle i.operands = [] := by rw [Opcode.idle, hwrites, if_pos rfl]
    have hreads : i.reads = op.named i.operands ++ op.evaluated i.operands := by
      rw [Instruction.reads, hop, hoperands]
      cases op <;> first | rfl | cases hwrites
    rw [hidle, hreads]
    exact ⟨.inl, fun h => h.resolve_right List.not_mem_nil⟩

theorem Instruction.writes_eq (hop : i.opcode? = some op) (harity : op.arity ≤ i.operands.length) :
    i.writes = if op.writes then i.operands.take 1 else [] := by
  rw [Instruction.writes, hop]
  cases hwrites : op.writes with
  | false =>
    rw [Opcode.writes] at hwrites
    generalize i.operands = ws
    split
    · rename_i hsome
      cases hsome
      rw [hwrites]
      rfl
    · rfl
  | true =>
    rw [two_le_arity hwrites] at harity
    obtain ⟨a, b, rest, hoperands⟩ := exists_cons_cons harity
    rw [Opcode.writes] at hwrites
    simp only [hoperands, hwrites, if_true, List.take_succ_cons, List.take_zero]

end

/-! ### What an item reads and writes -/

/-- The addresses that a scope binds are those of words that stand for no variable. -/
def Scope.BindsAddresses (s : Scope) : Prop := ∀ {address : Int} {name : Text}, s.nameAt? address = some name →
  ∃ w, IsAddress w ∧ unsigned w = address

theorem Scope.Gains.bindsAddresses {P : Int → Text → DataType → Prop} {s s' : Scope} (h : s.Gains P s')
    (hs : s.BindsAddresses) : s'.BindsAddresses := by
  intro address name hname
  rcases h.nameAt?_cases hname with hbefore | ⟨-, type, -, hroutine, -⟩
  · exact hs hbefore
  · exact hroutine.isAddress

theorem Scope.BindsAddresses.isPointer_eq_false {s : Scope} (hs : s.BindsAddresses) {w : Int32} {v : Variable}
    (hv : Operand.ofInt w.toInt = .variable v) : isPointer none s w = false := by
  rw [isPointer, Bool.or_eq_false_iff, Option.isSome_eq_false_iff, Option.isNone_iff_eq_none]
  refine ⟨?_, rfl⟩
  by_contra hne
  obtain ⟨name, hname⟩ := Option.ne_none_iff_exists'.1 hne
  obtain ⟨w', haddress, hsame⟩ := hs hname
  rw [unsigned_injective hsame] at haddress
  exact haddress v hv

section

variable {ws : List Int32} {i : Instruction} {op : Opcode} {r r' : Reading} {item : Item}

private theorem targets_iff {v : Variable} :
    Targets ws v ↔ ∃ w ∈ ws.take 1, Operand.ofInt w.toInt = .variable v := by
  rw [List.take_one, List.head?_eq_getElem?]
  simp only [Targets, Option.mem_toList]

private theorem exists_mem_if_iff {condition : Bool} {p : Int32 → Prop} :
    (∃ w ∈ if condition then ws else [], p w) ↔ condition = true ∧ ∃ w ∈ ws, p w := by
  cases condition with
  | true => exact (and_iff_right rfl).symm
  | false => exact ⟨fun ⟨_, hw, _⟩ => (List.not_mem_nil hw).elim, fun h => nomatch h.1⟩

/-- What an item reads are the variables among the operands that are taken for a name or evaluated. -/
private theorem Says.mem_reads_iff (h : Says none ws r op item r') (hr : r'.scope.BindsAddresses) (v : Variable) :
    v.name ∈ item.reads ↔ ∃ w ∈ op.named ws ++ op.evaluated ws, Operand.ofInt w.toInt = .variable v := by
  have hexpressions : v.name ∈ item.expressions.flatMap Expr.identifiers ↔
      ∃ w ∈ op.evaluated ws, Operand.ofInt w.toInt = .variable v := by
    constructor
    · intro hname
      obtain ⟨w, hw, v', hv', hname, -⟩ := h.exists_evaluated hname
      exact ⟨w, hw, by rw [hv', Variable.name_injective hname]⟩
    · rintro ⟨w, hw, hv⟩
      exact h.mem_identifiers hw hv (hr.isPointer_eq_false hv)
  have hconsulted : item.consulted? = some v.name ↔ ∃ w ∈ op.named ws, Operand.ofInt w.toInt = .variable v := by
    rw [h.consulted?_eq_iff, targets_iff, Opcode.named, exists_mem_if_iff]
  rw [Item.reads, List.mem_append, hexpressions, Option.mem_toList, hconsulted]
  constructor
  · rintro (⟨w, hw, hv⟩ | ⟨w, hw, hv⟩)
    · exact ⟨w, List.mem_append_left _ hw, hv⟩
    · exact ⟨w, List.mem_append_right _ hw, hv⟩
  · rintro ⟨w, hw, hv⟩
    exact (List.mem_append.1 hw).imp (fun hw => ⟨w, hw, hv⟩) fun hw => ⟨w, hw, hv⟩

end

/-! ### Scanning a line -/

/-- The local word with an index. -/
def Variable.word (index : Int) : Variable := ⟨.localWord, index⟩

/-- The scan counts what the item reads and idle operands besides, and it takes to be written what the item writes. -/
structure Instruction.Scans (i : Instruction) (item : Item) : Prop where
  reads_iff : ∀ index, index ∈ localWords i.reads ↔ (Variable.word index).name ∈ item.reads ∨ index ∈ localWords i.idle
  writes_iff : ∀ index, index ∈ localWords i.writes ↔ item.written? = some (Variable.word index).name

theorem Instruction.Says.scans {i : Instruction} {r r' : Reading} {item : Item} (h : i.Says none r item r')
    (hr : r'.scope.BindsAddresses) : i.Scans item := by
  obtain ⟨op, hop, hsaid⟩ := h
  have harity := hsaid.arity_le
  constructor
  · intro index
    rw [hsaid.mem_reads_iff hr, mem_localWords, mem_localWords]
    simp only [Instruction.mem_reads_iff hop harity, or_and_right, exists_or]
    rfl
  · intro index
    rw [hsaid.written?_eq_iff, targets_iff, mem_localWords, Instruction.writes_eq hop harity, exists_mem_if_iff]
    rfl

theorem Conveys.forall₂_scans {r r' : Reading} {is : List Instruction} {items : List Item}
    (h : Conveys none r is items r') (hr : r.scope.BindsAddresses) : List.Forall₂ Instruction.Scans is items := by
  induction h with
  | nil r => exact .nil
  | cons hsaid _ ih =>
    obtain ⟨op, -, hsaid'⟩ := id hsaid
    have hbehind : Scope.BindsAddresses _ := hsaid'.gains.bindsAddresses hr
    exact .cons (hsaid.scans hbehind) (ih hbehind)

/-- Both come to the first reading of a word at the same places, but for idle operands. -/
private theorem readsFirst_iff {index : Int} {is : List Instruction} {items : List Item}
    (h : List.Forall₂ Instruction.Scans is items) :
    ReadsFirst (fun i => index ∈ localWords i.reads) (fun i => index ∈ localWords i.writes) is ↔
      ReadsFirst (fun item => (Variable.word index).name ∈ item.reads)
        (fun item => item.written? = some (Variable.word index).name) items ∨
      ReadsFirst (fun i => index ∈ localWords i.idle) (fun i => index ∈ localWords i.writes) is := by
  induction h with
  | nil => exact ⟨nofun, by rintro (h | h) <;> cases h⟩
  | cons hscans _ ih =>
    rw [ReadsFirst.cons_iff, ReadsFirst.cons_iff, ReadsFirst.cons_iff, hscans.reads_iff, ← hscans.writes_iff, ih]
    tauto

/-! ### The scan of a script that is read -/

/-- Indices of the local words that a script reads before it writes them. -/
def Block.captures (b : Block) : Set Int :=
  {index | ReadsFirst (fun item => (Variable.word index).name ∈ item.reads)
    (fun item => item.written? = some (Variable.word index).name) (items b)}

/-- Indices of the local words among idle operands that no instruction in front of them writes. -/
def idleCaptures (is : List Instruction) : Set Int :=
  {index | ReadsFirst (fun i => index ∈ localWords i.idle) (fun i => index ∈ localWords i.writes) is}

/-- Where the greatest of two sets comes from. -/
theorem IsOnePast.union_iff {S T : Set Int} {n : Int} (h : IsOnePast (S ∪ T) n) :
    IsOnePast S n ↔ (∀ i ∈ T, ∃ j ∈ S, i ≤ j) ∨ S = ∅ ∧ IsGreatest T (-1) := by
  rcases h with ⟨hmem, hbound⟩ | ⟨hempty, rfl⟩
  · constructor
    · rintro (⟨hS, -⟩ | ⟨rfl, rfl⟩)
      · exact .inl fun i hi => ⟨n - 1, hS, hbound (.inr hi)⟩
      · rw [Set.empty_union] at hmem hbound
        exact .inr ⟨rfl, hmem, hbound⟩
    · have hleft : ∀ {i}, i ∈ S → i ≤ n - 1 := fun hi => hbound (.inl hi)
      rintro (hcovered | ⟨rfl, hgreatest⟩)
      · have hS : n - 1 ∈ S := by
          rcases hmem with hS | hT
          · exact hS
          · obtain ⟨j, hj, hle⟩ := hcovered _ hT
            rwa [le_antisymm hle (hleft hj)]
        exact .inl ⟨hS, fun i hi => hleft hi⟩
      · rw [Set.empty_union] at hmem hbound
        have hsame : n - 1 = -1 := IsGreatest.unique ⟨hmem, hbound⟩ hgreatest
        exact .inr ⟨rfl, by omega⟩
  · obtain ⟨rfl, rfl⟩ := Set.union_empty_iff.1 hempty
    exact iff_of_true (.inr ⟨rfl, rfl⟩) (.inl nofun)

private theorem bindsAddresses_base : Scope.base.BindsAddresses := nofun

private theorem reads_iff_idle_of_isFinish {i : Instruction} (h : i.isFinish = true) : i.reads = i.idle := by
  have hop : i.opcode? = some .finish := of_decide_eq_true h
  rw [reads_eq_operands hop rfl, Instruction.idle_eq hop]
  rfl

/-- The number of captured words of a script that is read is one past the greatest index of a local word that the script
reads first or that is an idle operand first. So it is that of the words which the script reads first just when no index
of an idle operand is greater than all of those, or there are none of those and the greatest index is the one below
zero. -/
theorem capturedWords_of_decode {address : Int} {bytes : List UInt8} {b : Block} {s' : Scope}
    (h : (decode none address bytes .base).result = .ok (b, s')) :
    IsOnePast (b.captures ∪ idleCaptures (instructions address bytes)) (capturedWords address bytes) ∧
      (IsOnePast b.captures (capturedWords address bytes) ↔
        (∀ i ∈ idleCaptures (instructions address bytes), ∃ j ∈ b.captures, i ≤ j) ∨
          b.captures = ∅ ∧ IsGreatest (idleCaptures (instructions address bytes)) (-1)) := by
  obtain ⟨before, r', hbefore, hconveys, -⟩ := decode_eq_ok_iff.1 h
  obtain ⟨last, rest, hinstructions, hlast⟩ := exists_of_beforeFinish? hbefore
  obtain rfl := eq_nil_of_listing hinstructions hlast
  have hscans := hconveys.forall₂_scans bindsAddresses_base
  have hunion : {index | ReadsFirst (fun i => index ∈ localWords i.reads) (fun i => index ∈ localWords i.writes)
      (instructions address bytes)} = b.captures ∪ idleCaptures (instructions address bytes) := by
    ext index
    show ReadsFirst _ _ _ ↔ ReadsFirst _ _ _ ∨ ReadsFirst _ _ _
    rw [hinstructions, ReadsFirst.append_iff, ReadsFirst.append_iff, ReadsFirst.singleton_iff, ReadsFirst.singleton_iff,
      readsFirst_iff hscans, reads_iff_idle_of_isFinish hlast, or_assoc]
  have hcaptured := isOnePast_capturedWords address bytes
  rw [hunion] at hcaptured
  exact ⟨hcaptured, hcaptured.union_iff⟩

/-- Sets the first local word to the second one. -/
private def readingScript : List UInt8 :=
  [0, 0, 0, 0x24, 0, 0, 0, 2, 0xfe, 0x36, 0x3c, 0x80, 0xfe, 0x36, 0x3c, 0x81, 0, 0, 0, 1, 0, 0, 0, 0]

theorem capturedWords_of_decode_set : capturedWords 0 readingScript = 2 ∧
    ∃ b s', (decode none 0 readingScript .base).result = .ok (b, s') ∧
      IsOnePast (b.captures ∪ idleCaptures (instructions 0 readingScript)) (capturedWords 0 readingScript) ∧
      (IsOnePast b.captures (capturedWords 0 readingScript) ↔
        (∀ i ∈ idleCaptures (instructions 0 readingScript), ∃ j ∈ b.captures, i ≤ j) ∨
          b.captures = ∅ ∧ IsGreatest (idleCaptures (instructions 0 readingScript)) (-1)) := by
  have hok : (decode none 0 readingScript .base).result.map (fun _ => ()) = .ok () := by decide +kernel
  obtain ⟨⟨b, s'⟩, h, -⟩ := exists_of_map_eq_ok hok
  exact ⟨by decide +kernel, b, s', h, capturedWords_of_decode h⟩

theorem Block.captures_eq_empty {b : Block} (h : (items b).flatMap Item.reads = []) : b.captures = ∅ := by
  refine Set.eq_empty_of_forall_notMem fun index hindex => ?_
  obtain ⟨item, hitem, hreads⟩ := ReadsFirst.exists_mem hindex
  have hmem : (Variable.word index).name ∈ (items b).flatMap Item.reads := List.mem_flatMap.2 ⟨item, hitem, hreads⟩
  rw [h] at hmem
  cases hmem

/-- Compares a constant with nothing. The constant has the value of the first local word as an operand. -/
private def constantScript : List UInt8 :=
  [0, 0, 0, 0x15, 0, 0, 0, 1, 0xfe, 0x36, 0x3c, 0x80, 0, 0, 0, 0x23, 0, 0, 0, 0, 0, 0, 0, 1, 0, 0, 0, 0]

/-- A word is captured where the script reads none. -/
theorem captured_from_constant : ∃ b s', (decode none 0 constantScript .base).result = .ok (b, s') ∧ b.captures = ∅ ∧
    capturedWords 0 constantScript = 1 ∧ ¬IsOnePast b.captures (capturedWords 0 constantScript) := by
  have hcount : capturedWords 0 constantScript = 1 := by decide +kernel
  have hreads : (decode none 0 constantScript .base).result.map (fun r => (Block.items r.1).flatMap Item.reads) =
      .ok [] := by
    decide +kernel
  obtain ⟨⟨b, s'⟩, h, hreads⟩ := exists_of_map_eq_ok hreads
  have hempty : b.captures = ∅ := Block.captures_eq_empty hreads
  refine ⟨b, s', h, hempty, hcount, ?_⟩
  rw [hempty, hcount]
  rintro (⟨hmem, -⟩ | ⟨-, hzero⟩)
  · exact hmem
  · exact absurd hzero (by decide)

end MapScript
