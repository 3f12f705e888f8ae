import Mathlib.Data.List.Forall2
import MapScript.Proofs.Decoding.Steps

/-!
# Scripts that are accepted

The instructions of a script up to the one that finishes it say the items of a line, each in what is known behind those
before it (`Conveys`). A script is read successfully just when they say the line of a tree, and this tree is the result
(`decode_eq_ok_iff`). So the tree has one item for every instruction, in their order (`says_of_decode`).

Which scripts are accepted depends on the operations and the numbers of their operands only, as long as variables stand
where variables are written to: their parts have to be derived from the grammar of lines. All other scripts fail, and each
for a fault of its own (`decode_accepts_iff`).
-/

namespace MapScript

/-- The instructions in front of the first one that finishes a script. -/
def beforeFinish? : List Instruction → Option (List Instruction)
  | [] => none
  | i :: rest => if i.isFinish then some [] else (beforeFinish? rest).map (i :: ·)

theorem exists_of_beforeFinish? {is before : List Instruction} (h : beforeFinish? is = some before) :
    ∃ last rest, is = before ++ last :: rest ∧ last.isFinish = true := by
  induction is generalizing before with
  | nil => cases h
  | cons i rest ih =>
    rw [beforeFinish?] at h
    split at h
    · rename_i hi
      cases h
      exact ⟨i, rest, rfl, hi⟩
    · obtain ⟨front, hfront, rfl⟩ := Option.map_eq_some_iff.1 h
      obtain ⟨last, left, rfl, hlast⟩ := ih hfront
      exact ⟨last, left, rfl, hlast⟩

/-- Instructions that say items one behind the other, and what is known behind them. -/
inductive Conveys (image : Option Overlay) : Reading → List Instruction → List Item → Reading → Prop
  | nil (r : Reading) : Conveys image r [] [] r
  | cons {r r₁ r' : Reading} {i : Instruction} {rest : List Instruction} {item : Item} {items : List Item} :
    i.Says image r item r₁ → Conveys image r₁ rest items r' → Conveys image r (i :: rest) (item :: items) r'

section

variable {image : Option Overlay} {s s' : Scope} {b : Block} {address : Int} {bytes : List UInt8}

theorem Walk.finish_eq_ok_iff {w : Walk} {i : Instruction} :
    w.finish i = .ok (b, s') ↔ w.script = ⟨b, []⟩ ∧ w.scope = s' := by
  obtain ⟨⟨root, _ | ⟨open_, outer⟩⟩, scope, declared⟩ := w
  · constructor
    · intro h
      cases h
      exact ⟨rfl, rfl⟩
    · rintro ⟨h, rfl⟩
      cases h
      rfl
  · exact ⟨nofun, fun h => nomatch h.1⟩

/-- The rest of a script is read successfully when its instructions say items that close all blocks. -/
theorem decodeFrom_eq_ok_iff {w : Walk} {next : Int} {is : List Instruction} :
    (decodeFrom image w next is).result = .ok (b, s') ↔ ∃ before items r', beforeFinish? is = some before ∧
      Conveys image w.reading before items r' ∧ w.script.addAll? items = some ⟨b, []⟩ ∧ r'.scope = s' := by
  induction is generalizing w next with
  | nil => exact ⟨nofun, fun ⟨_, _, _, h, _⟩ => nomatch h⟩
  | cons i rest ih =>
    rw [decodeFrom, beforeFinish?]
    by_cases hi : i.isFinish = true
    · rw [if_pos hi, if_pos hi]
      show w.finish i = _ ↔ _
      rw [Walk.finish_eq_ok_iff]
      constructor
      · rintro ⟨hscript, hscope⟩
        exact ⟨[], [], w.reading, rfl, .nil _, congrArg some hscript, hscope⟩
      · rintro ⟨before, items, r', hbefore, hconveys, hadd, hscope⟩
        cases hbefore
        cases hconveys
        exact ⟨Option.some.inj hadd, hscope⟩
    · rw [if_neg hi, if_neg hi, Logged.result_bind_eq_ok_iff]
      have hi := Bool.eq_false_iff.2 hi
      constructor
      · rintro ⟨w₁, hstep, h⟩
        obtain ⟨item, r, script, hsaid, hadd, rfl⟩ := (Walk.step_eq_ok_iff hi).1 hstep
        obtain ⟨before, items, r', hbefore, hconveys, hrest, hscope⟩ := ih.1 h
        refine ⟨i :: before, item :: items, r', by rw [hbefore]; rfl, .cons hsaid hconveys, ?_, hscope⟩
        rw [OpenScript.addAll?_cons, hadd, Option.bind_some, hrest]
      · rintro ⟨before, items, r', hbefore, hconveys, hadd, hscope⟩
        obtain ⟨tail, htail, rfl⟩ := Option.map_eq_some_iff.1 hbefore
        cases hconveys with
        | cons hsaid hconveys =>
          rw [OpenScript.addAll?_cons] at hadd
          obtain ⟨script, hadd, hrest⟩ := Option.bind_eq_some_iff.1 hadd
          refine ⟨_, (Walk.step_eq_ok_iff hi).2 ⟨_, _, script, hsaid, hadd, rfl⟩, ?_⟩
          exact ih.2 ⟨tail, _, r', htail, hconveys, hrest, hscope⟩

/-- A script is read successfully when its instructions say the line of a tree. -/
theorem decode_eq_ok_iff : (decode image address bytes s).result = .ok (b, s') ↔
    ∃ before r', beforeFinish? (instructions address bytes) = some before ∧
      Conveys image ⟨s, []⟩ before (Block.items b) r' ∧ r'.scope = s' := by
  rw [decode, decodeFrom_eq_ok_iff]
  constructor
  · rintro ⟨before, items, r', hbefore, hconveys, hadd, hscope⟩
    obtain rfl := OpenScript.addAll?_empty_eq_some_iff.1 hadd
    exact ⟨before, r', hbefore, hconveys, hscope⟩
  · rintro ⟨before, r', hbefore, hconveys, hscope⟩
    exact ⟨before, _, r', hbefore, hconveys, OpenScript.addAll?_empty_eq_some_iff.2 rfl, hscope⟩

/-! ### One item for every instruction -/

/-- The readings of a line with one more in front of them. -/
private def startAt (r : Reading) (readings : Nat → Reading) : Nat → Reading
  | 0 => r
  | k + 1 => readings k

/-- The readings between the instructions of a line. -/
private theorem Conveys.exists_readings {r r' : Reading} {is : List Instruction} {items : List Item}
    (h : Conveys image r is items r') : ∃ readings : Nat → Reading, readings 0 = r ∧ readings is.length = r' ∧
      is.length = items.length ∧ ∀ (k : Nat) (i : Instruction) (item : Item), is[k]? = some i → items[k]? = some item →
        i.Says image (readings k) item (readings (k + 1)) := by
  induction h with
  | nil r =>
    refine ⟨fun _ => r, rfl, rfl, rfl, fun k i item hi => ?_⟩
    rw [List.getElem?_nil] at hi
    cases hi
  | @cons r r₁ r' i rest item items hsaid _ ih =>
    obtain ⟨readings, hfirst, hlast, hlength, hall⟩ := ih
    refine ⟨startAt r readings, rfl, hlast, congrArg (· + 1) hlength, ?_⟩
    intro k i₁ item₁ hi hitem
    cases k with
    | zero =>
      cases hi
      cases hitem
      show i.Says image r item (readings 0)
      rw [hfirst]
      exact hsaid
    | succ k => exact hall k i₁ item₁ hi hitem

/-- The line of the tree has one item for every instruction, which the instruction says in what is known there. -/
theorem says_of_decode (h : (decode image address bytes s).result = .ok (b, s')) :
    ∃ (before : List Instruction) (readings : Nat → Reading),
      beforeFinish? (instructions address bytes) = some before ∧ before.length = (Block.items b).length ∧
      readings 0 = ⟨s, []⟩ ∧ (readings before.length).scope = s' ∧
      ∀ (k : Nat) (i : Instruction) (item : Item), before[k]? = some i → (Block.items b)[k]? = some item →
        ∃ op, i.opcode? = some op ∧ Says image i.operands (readings k) op item (readings (k + 1)) := by
  obtain ⟨before, r', hbefore, hconveys, hscope⟩ := decode_eq_ok_iff.1 h
  obtain ⟨readings, hfirst, hlast, hlength, hall⟩ := hconveys.exists_readings
  exact ⟨before, readings, hbefore, hlength, hfirst, by rw [hlast, hscope], hall⟩

/-- A loop around a branch with two blocks, and a switch on the local word that the first of them sets. -/
private def nestedScript : List UInt8 :=
  [0, 0, 0, 0x05, 0, 0, 0, 1, 0, 0, 0, 0,
    0, 0, 0, 0x0a, 0, 0, 0, 2, 0xfe, 0x36, 0x3c, 0x80, 0, 0, 0, 1,
    0, 0, 0, 0x24, 0, 0, 0, 2, 0xfe, 0x36, 0x3c, 0x80, 0, 0, 0, 2,
    0, 0, 0, 0x12, 0, 0, 0, 0,
    0, 0, 0, 0x07, 0, 0, 0, 0,
    0, 0, 0, 0x13, 0, 0, 0, 0,
    0, 0, 0, 0x06, 0, 0, 0, 0,
    0, 0, 0, 0x14, 0, 0, 0, 1, 0xfe, 0x36, 0x3c, 0x80,
    0, 0, 0, 0x16, 0, 0, 0, 1, 0, 0, 0, 2,
    0, 0, 0, 0x02, 0, 0, 0, 0,
    0, 0, 0, 0x1c, 0, 0, 0, 0,
    0, 0, 0, 0x23, 0, 0, 0, 0,
    0, 0, 0, 0x01, 0, 0, 0, 0]

/-- The tree has the items of the line in their order, each block of it between its own opening and closing. -/
theorem says_of_decode_nested : ∃ r, (decode none 0 nestedScript .base).result = .ok r ∧
    (Block.items r.1).map Item.part = [.loop, .branch, .simple, .otherwise, .simple, .endBranch, .endLoop, .switch, .arm,
      .simple, .arm, .endSwitch] ∧
    ∃ (before : List Instruction) (readings : Nat → Reading),
      beforeFinish? (instructions 0 nestedScript) = some before ∧ before.length = (Block.items r.1).length ∧
      readings 0 = ⟨.base, []⟩ ∧ (readings before.length).scope = r.2 ∧
      ∀ (k : Nat) (i : Instruction) (item : Item), before[k]? = some i → (Block.items r.1)[k]? = some item →
        ∃ op, i.opcode? = some op ∧ Says none i.operands (readings k) op item (readings (k + 1)) := by
  have hparts : (decode none 0 nestedScript .base).result.map (fun r => (Block.items r.1).map Item.part) =
      .ok [.loop, .branch, .simple, .otherwise, .simple, .endBranch, .endLoop, .switch, .arm, .simple, .arm,
        .endSwitch] := by
    decide +kernel
  obtain ⟨r, h, hparts⟩ := exists_of_map_eq_ok hparts
  exact ⟨r, h, hparts, says_of_decode h⟩

/-- The words of a script that sets the first local word to the constant which stands for the second one. -/
private def addressScript : List UInt8 :=
  [0, 0, 0, 0x25, 0, 0, 0, 2, 0xfe, 0x36, 0x3c, 0x80, 0xfe, 0x36, 0x3c, 0x81, 0, 0, 0, 1, 0, 0, 0, 0]

/-- A constant stands for itself even where an expression would be a variable. -/
theorem constant_stands_for_itself : ∃ b s' value, (decode none 0 addressScript .base).result = .ok (b, s') ∧
    b = [.declare .any "FunWord_0" (some value)] ∧
    beforeFinish? (instructions 0 addressScript) = some [⟨0, 0x25, [-30000000, -29999999]⟩] ∧
    ∀ e s₁, readExpr none (-29999999) .base = .ok (e, s₁) → e ≠ value := by
  have hbefore : beforeFinish? (instructions 0 addressScript) = some [⟨0, 0x25, [-30000000, -29999999]⟩] := by
    decide +kernel
  let v : Variable := ⟨.localWord, 0⟩
  have hword : Operand.ofInt (-30000000) = .variable v := by decide
  have hname : v.name = "FunWord_0" := by decide +kernel
  have hsets : Reading.Sets ⟨.base, []⟩ v (.int (-29999999)) _ _ := .declare rfl List.not_mem_nil rfl
  have hsaid : Says none [-30000000, -29999999] ⟨.base, []⟩ .setConst _ _ := .setConst ⟨_, rfl, hword⟩ rfl hsets
  have hconveys : Conveys none ⟨.base, []⟩ [⟨0, 0x25, [-30000000, -29999999]⟩]
      (Block.items [.declare .any v.name (some (.int (-29999999)))]) _ := .cons ⟨.setConst, rfl, hsaid⟩ (.nil _)
  refine ⟨_, _, .int (-29999999), decode_eq_ok_iff.2 ⟨_, _, hbefore, hconveys, rfl⟩, by rw [hname], hbefore, ?_⟩
  intro e s₁ h
  cases h
  nofun

/-! ### The grammar of instructions -/

/-- The instruction plays a part: its operation is known, it has the operands that this needs, and a variable stands where
one is written to. -/
def Instruction.Plays (i : Instruction) (p : Part) : Prop :=
  ∃ op, i.opcode? = some op ∧ op.part? = some p ∧ op.arity ≤ i.operands.length ∧
    (op.writes = true → ∃ v, Targets i.operands v)

/-- Instructions whose parts have a derivation. -/
def Sentence (is : List Instruction) : Prop := ∃ ps, List.Forall₂ Instruction.Plays is ps ∧ Derives .block ps

private theorem ReadsAt.lt_length {ws : List Int32} {position : Nat} {e : Expr} (h : ReadsAt image ws s position e s') :
    position < ws.length := by
  obtain ⟨a, ha, -⟩ := h
  exact (List.getElem?_eq_some_iff.1 ha).1

theorem Says.arity_le {ws : List Int32} {r r' : Reading} {op : Opcode} {item : Item}
    (h : Says image ws r op item r') : op.arity ≤ ws.length := by
  cases h with
  | label h | goto h | endlessLoop h | switchConst h | call h | exec h | execWait h =>
    exact (List.getElem?_eq_some_iff.1 h).1
  | loop _ h | wait h | waitSeconds h | switch h | arm h => exact h.lt_length
  | branch _ h | armRange _ h | arithmetic _ h => exact h.lt_length
  | branchMask _ h | branchNotMask _ h | setConst _ h => exact (List.getElem?_eq_some_iff.1 h).1
  | set hop _ h =>
    rcases hop with rfl | rfl
    · exact h.lt_length
    · exact h.lt_length
  | _ => exact Nat.zero_le _

private theorem Says.exists_target {ws : List Int32} {r r' : Reading} {op : Opcode} {item : Item}
    (h : Says image ws r op item r') (hop : op.writes = true) : ∃ v, Targets ws v := by
  cases h with
  | set _ hv | setConst hv | arithmetic hv => exact ⟨_, hv⟩
  | _ => cases hop

theorem Instruction.Says.plays {i : Instruction} {r r' : Reading} {item : Item} (h : i.Says image r item r') :
    i.Plays item.part := by
  obtain ⟨op, hop, hsaid⟩ := h
  exact ⟨op, hop, hsaid.part, hsaid.arity_le, hsaid.exists_target⟩

variable (image) in
theorem Instruction.Plays.exists_item {i : Instruction} {p : Part} {r : Reading} (h : i.Plays p)
    (hr : 0 < r.scope.depth) : ∃ item r', i.Says image r item r' ∧ item.part = p ∧ r.scope.SameDepth r'.scope := by
  obtain ⟨op, hop, hpart, harity, hwrites⟩ := h
  have hfinish : op ≠ .finish := by
    rintro rfl
    cases hpart
  obtain ⟨item, r', hsaid, hdepth⟩ := MapScript.exists_item image hr hfinish harity hwrites
  refine ⟨item, r', ⟨op, hop, hsaid⟩, ?_, hdepth⟩
  rw [hsaid.part] at hpart
  exact Option.some.inj hpart

/-- Instructions say items with given parts just when they play these parts. -/
theorem exists_conveys_iff {r : Reading} {is : List Instruction} {ps : List Part} (hr : 0 < r.scope.depth) :
    (∃ items r', Conveys image r is items r' ∧ items.map Item.part = ps) ↔ List.Forall₂ Instruction.Plays is ps := by
  constructor
  · rintro ⟨items, r', h, rfl⟩
    clear hr
    induction h with
    | nil r => exact .nil
    | cons hsaid _ ih => exact .cons hsaid.plays ih
  · intro h
    induction h generalizing r with
    | nil => exact ⟨[], r, .nil r, rfl⟩
    | cons hplays _ ih =>
      obtain ⟨item, r₁, hsaid, hpart, hdepth⟩ := hplays.exists_item image hr
      obtain ⟨items, r', hconveys, hparts⟩ := ih (hdepth ▸ hr)
      exact ⟨item :: items, r', .cons hsaid hconveys, by rw [List.map_cons, hpart, hparts]⟩

private theorem decodeFrom_ends {w : Walk} (hw : 0 < w.scope.depth) (next : Int) (is : List Instruction) :
    Ends (fun r => w.scope.SameDepth r.2) (fun e => ∃ cause, e = .decode cause) (decodeFrom image w next is).result := by
  induction is generalizing w next with
  | nil => exact .error ⟨_, rfl⟩
  | cons i rest ih =>
    rw [decodeFrom]
    split
    · show Ends _ _ (w.finish i)
      unfold Walk.finish
      split
      · exact .ok rfl
      · exact .error ⟨_, rfl⟩
    · rw [Logged.result_bind]
      have hstep : Ends (fun w₁ => w.scope.SameDepth w₁.scope) (fun e => ∃ cause, e = .decode cause)
          (w.step image i).result := (w.step_ends hw i).mono (fun _ h => h) fun _ ⟨_, _, h⟩ => ⟨_, h⟩
      exact hstep.bind fun w₁ _ h₁ => (ih (h₁ ▸ hw) _).imp fun _ h => h.trans h₁

/-- In a scope with layers a script has a tree, or else a fault. -/
theorem decode_ends (hs : 0 < s.depth) : Ends (fun r => s.SameDepth r.2) (fun e => ∃ cause, e = .decode cause)
    (decode image address bytes s).result :=
  decodeFrom_ends (w := .start s) hs ..

/-- In a scope with layers a walk from the start goes through just when the instructions up to the one that finishes the
script are a sentence. -/
theorem decodeFrom_start_isOk_iff (hs : 0 < s.depth) {next : Int} {is : List Instruction} :
    (∃ r, (decodeFrom image (.start s) next is).result = .ok r) ↔
      ∃ before, beforeFinish? is = some before ∧ Sentence before := by
  have hs : 0 < (Walk.start s).reading.scope.depth := hs
  constructor
  · rintro ⟨⟨b, s'⟩, h⟩
    obtain ⟨before, items, r', hbefore, hconveys, hadd, -⟩ := decodeFrom_eq_ok_iff.1 h
    obtain rfl := OpenScript.addAll?_empty_eq_some_iff.1 hadd
    exact ⟨before, hbefore, _, (exists_conveys_iff hs).1 ⟨_, r', hconveys, rfl⟩, derives_items b⟩
  · rintro ⟨before, hbefore, ps, hplays, hderives⟩
    have hsaid : ∃ items r', Conveys image (Walk.start s).reading before items r' ∧ _ := (exists_conveys_iff hs).2 hplays
    obtain ⟨items, r', hconveys, rfl⟩ := hsaid
    obtain ⟨b, rfl⟩ := derives_block_iff.1 hderives
    have hadd := OpenScript.addAll?_empty_eq_some_iff.2 (rfl : Block.items b = _)
    exact ⟨(b, r'.scope), decodeFrom_eq_ok_iff.2 ⟨before, _, r', hbefore, hconveys, hadd, rfl⟩⟩

/-- In a scope with layers a script is accepted when the instructions up to the one that finishes it are a sentence of the
grammar, and all other scripts fail for a fault of theirs. -/
theorem decode_accepts_iff (hs : 0 < s.depth) :
    ((∃ r, (decode image address bytes s).result = .ok r) ↔
      ∃ before, beforeFinish? (instructions address bytes) = some before ∧ Sentence before) ∧
    ∀ e, (decode image address bytes s).result = .error e → ∃ cause, e = .decode cause := by
  refine ⟨decodeFrom_start_isOk_iff hs, fun e he => ?_⟩
  have hends : Ends _ (fun e => ∃ cause, e = .decode cause) (decode image address bytes s).result := decode_ends hs
  rw [he] at hends
  exact hends.of_error

/-- A branch with an empty first block and a return in the second one. -/
private def branchingScript : List UInt8 :=
  [0, 0, 0, 0x0a, 0, 0, 0, 2, 0, 0, 0, 1, 0, 0, 0, 1, 0, 0, 0, 0x12, 0, 0, 0, 0, 0, 0, 0, 2, 0, 0, 0, 0,
    0, 0, 0, 0x13, 0, 0, 0, 0, 0, 0, 0, 1, 0, 0, 0, 0]

theorem decode_accepts_branching : 0 < Scope.base.depth ∧
    ∃ r, (decode none 0 branchingScript .base).result = .ok r := by
  have hdepth : 0 < Scope.base.depth := by decide
  have hbefore : beforeFinish? (instructions 0 branchingScript) =
      some [⟨0, 0x0a, [1, 1]⟩, ⟨16, 0x12, []⟩, ⟨24, 2, []⟩, ⟨32, 0x13, []⟩] := by decide +kernel
  have hderives : Derives .block [.branch, .otherwise, .simple, .endBranch] :=
    .next (.branchElse .empty (.next .simple .empty)) .empty
  refine ⟨hdepth, (decode_accepts_iff hdepth).1.2 ⟨_, hbefore, _, ?_, hderives⟩⟩
  refine .cons ⟨.branch .equal, rfl, rfl, by decide, nofun⟩ ?_
  refine .cons ⟨.otherwise, rfl, rfl, by decide, nofun⟩ ?_
  refine .cons ⟨.ret, rfl, rfl, by decide, nofun⟩ ?_
  exact .cons ⟨.endBranch, rfl, rfl, by decide, nofun⟩ .nil

end

end MapScript
