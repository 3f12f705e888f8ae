import MapScript.Decoding.Decode
import MapScript.Proofs.Decoding.OpenBlocks
import MapScript.Proofs.Outcome

/-!
# What instructions say

An instruction says an item of the script. `Says` is the table of what the operations say: it looks at the operands of the
instruction and at what is known when it is read, and not at the blocks that are open. A step of the walk is what the
instruction says, added to the open script (`step_eq_ok_iff`).
-/

namespace MapScript

/-- What is known while a script is read: the scope, and the local variables that are declared. -/
structure Reading where
  scope : Scope
  declared : List Variable

def Walk.reading (w : Walk) : Reading := ⟨w.scope, w.declared⟩

/-- A variable that is set: the first time that a local one is, this declares it. -/
inductive Reading.Sets (r : Reading) (v : Variable) (value : Expr) : Item → Reading → Prop
  | declare {s : Scope} : v.storage.isLocal = true → v ∉ r.declared → r.scope.bindName v.name v.initialType = .ok s →
    Sets r v value (.simple (.declare v.initialType v.name (some value)) rfl) ⟨s, v :: r.declared⟩
  | again : v.storage.isLocal = true → v ∈ r.declared → Sets r v value (.simple (.assign v.name "=" value) rfl) r
  | store {s : Scope} : v.storage.isLocal = false → r.scope.meet v = .ok s →
    Sets r v value (.simple (.assign v.name "=" value) rfl) { r with scope := s }

/-- A variable that is combined with a value. -/
inductive Reading.Updates (r : Reading) (v : Variable) (operator : String) (value : Expr) : Item → Reading → Prop
  | word : v.storage.isLocal = true → Updates r v operator value (.simple (.assign v.name operator value) rfl) r
  | store {s : Scope} : v.storage.isLocal = false → r.scope.meet v = .ok s →
    Updates r v operator value (.simple (.assign v.name operator value) rfl) { r with scope := s }

/-- The operand at a position is there and stands for the expression. -/
def ReadsAt (image : Option Overlay) (ws : List Int32) (s : Scope) (position : Nat) (e : Expr) (s' : Scope) : Prop :=
  ∃ a, ws[position]? = some a ∧ readExpr image a s = .ok (e, s')

/-- The first operand is there and stands for the variable. -/
def Targets (ws : List Int32) (v : Variable) : Prop := ∃ a, ws[0]? = some a ∧ Operand.ofInt a.toInt = .variable v

/-- What an operation with these operands says, and what is known behind it. -/
inductive Says (image : Option Overlay) (ws : List Int32) (r : Reading) : Opcode → Item → Reading → Prop
  | ret : Says image ws r .ret (.simple .ret rfl) r
  | label {a : Int32} : ws[0]? = some a → Says image ws r .label (.simple (.label a.toInt) rfl) r
  | goto {a : Int32} : ws[0]? = some a → Says image ws r .goto (.simple (.goto a.toInt) rfl) r
  | endlessLoop : ws[0]? = some 0 → Says image ws r .loop (.loop none) r
  | loop {e : Expr} {s : Scope} : ws[0]? ≠ some 0 → ReadsAt image ws r.scope 0 e s →
    Says image ws r .loop (.loop (some e)) { r with scope := s }
  | endLoop : Says image ws r .endLoop .endLoop r
  | breakLoop : Says image ws r .breakLoop (.simple .breakLoop rfl) r
  | wait {e : Expr} {s : Scope} : ReadsAt image ws r.scope 0 e s →
    Says image ws r .wait (.simple (.wait e false) rfl) { r with scope := s }
  | waitSeconds {e : Expr} {s : Scope} : ReadsAt image ws r.scope 0 e s →
    Says image ws r .waitSeconds (.simple (.wait e true) rfl) { r with scope := s }
  | branch {test : Relation} {lhs rhs : Expr} {s₁ s : Scope} : ReadsAt image ws r.scope 0 lhs s₁ →
    ReadsAt image ws s₁ 1 rhs s →
    Says image ws r (.branch test) (.branch (.comparison lhs test.symbol rhs)) { r with scope := s }
  | branchMask {lhs : Expr} {mask : Int32} {s : Scope} : ReadsAt image ws r.scope 0 lhs s → ws[1]? = some mask →
    Says image ws r .branchMask (.branch (.comparison lhs "&" (.int mask.toInt))) { r with scope := s }
  | branchNotMask {lhs : Expr} {mask : Int32} {s : Scope} : ReadsAt image ws r.scope 0 lhs s → ws[1]? = some mask →
    Says image ws r .branchNotMask (.branch (.comparison lhs "!&" (.int mask.toInt))) { r with scope := s }
  | otherwise : Says image ws r .otherwise .otherwise r
  | endBranch : Says image ws r .endBranch .endBranch r
  | switch {e : Expr} {s : Scope} : ReadsAt image ws r.scope 0 e s →
    Says image ws r .switch (.switch e) { r with scope := s }
  | switchConst {a : Int32} : ws[0]? = some a → Says image ws r .switchConst (.switch (.int a.toInt)) r
  | arm {test : Relation} {e : Expr} {s : Scope} : ReadsAt image ws r.scope 0 e s →
    Says image ws r (.arm test) (.arm test.symbol [e]) { r with scope := s }
  | armDefault : Says image ws r .armDefault (.arm "default" []) r
  | armRange {low high : Expr} {s₁ s : Scope} : ReadsAt image ws r.scope 0 low s₁ → ReadsAt image ws s₁ 1 high s →
    Says image ws r .armRange (.arm "range" [low, high]) { r with scope := s }
  | breakSwitch : Says image ws r .breakSwitch (.simple .breakSwitch rfl) r
  | endSwitch : Says image ws r .endSwitch .endSwitch r
  | set {op : Opcode} {v : Variable} {value : Expr} {s : Scope} {item : Item} {r' : Reading} : op = .set ∨ op = .setFixed →
    Targets ws v → ReadsAt image ws r.scope 1 value s → { r with scope := s }.Sets v value item r' →
    Says image ws r op item r'
  | setConst {v : Variable} {a : Int32} {item : Item} {r' : Reading} : Targets ws v → ws[1]? = some a →
    r.Sets v (constantExpr a r.scope) item r' → Says image ws r .setConst item r'
  | arithmetic {op : Arithmetic} {v : Variable} {value : Expr} {s : Scope} {item : Item} {r' : Reading} : Targets ws v →
    ReadsAt image ws r.scope 1 value s → { r with scope := s }.Updates v op.symbol value item r' →
    Says image ws r (.arithmetic op) item r'
  | call {target : Int32} {arguments : List Expr} {callee : Callee} {s₁ s : Scope} : ws[0]? = some target →
    readExprs image (ws.drop 1) r.scope = .ok (arguments, s₁) →
    readMethod target arguments.length s₁ = .ok (callee, s) →
    Says image ws r .call (.simple (.call callee arguments .call) rfl) { r with scope := s }
  | exec {target : Int32} {callee : Callee} {s : Scope} : ws[0]? = some target →
    (readScript image target r.scope).result = .ok (callee, s) →
    Says image ws r .exec (.simple (.call callee [] .spawn) rfl) { r with scope := s }
  | execWait {target : Int32} {callee : Callee} {s : Scope} : ws[0]? = some target →
    (readScript image target r.scope).result = .ok (callee, s) →
    Says image ws r .execWait (.simple (.call callee [] .call) rfl) { r with scope := s }
  | thread : Says image ws r .thread (.thread false) r
  | endThread : Says image ws r .endThread (.endThread false) r
  | childThread : Says image ws r .childThread (.thread true) r
  | endChildThread : Says image ws r .endChildThread (.endThread true) r

/-! ### Operands of instructions -/

theorem Instruction.operand_eq_ok_iff {i : Instruction} {position : Nat} {a : Int32} :
    i.operand position = .ok a ↔ i.operands[position]? = some a := by
  unfold operand
  split
  · rename_i h
    rw [h, Except.ok.injEq, Option.some.injEq]
  · rename_i h
    rw [h]
    exact ⟨nofun, nofun⟩

theorem Instruction.target_eq_ok_iff {i : Instruction} {v : Variable} : i.target = .ok v ↔ Targets i.operands v := by
  unfold target
  rw [bind_eq_ok_iff]
  constructor
  · rintro ⟨a, ha, h⟩
    split at h
    · rename_i hv
      cases h
      exact ⟨a, operand_eq_ok_iff.1 ha, hv⟩
    · cases h
  · rintro ⟨a, ha, hv⟩
    exact ⟨a, operand_eq_ok_iff.2 ha, by rw [hv]⟩

namespace Walk

section

variable {w w' : Walk} {image : Option Overlay} {i : Instruction}

theorem expr_eq_ok_iff {position : Nat} {e : Expr} : w.expr image i position = .ok (e, w') ↔
    ∃ s, ReadsAt image i.operands w.scope position e s ∧ w' = { w with scope := s } := by
  constructor
  · intro h
    obtain ⟨a, ha, h⟩ := bind_eq_ok_iff.1 h
    obtain ⟨⟨e', s⟩, he, h⟩ := bind_eq_ok_iff.1 h
    cases h
    exact ⟨s, ⟨a, Instruction.operand_eq_ok_iff.1 ha, he⟩, rfl⟩
  · rintro ⟨s, ⟨a, ha, he⟩, rfl⟩
    exact bind_eq_ok_iff.2 ⟨a, Instruction.operand_eq_ok_iff.2 ha, bind_eq_ok_iff.2 ⟨_, he, rfl⟩⟩

/-- The walk with this script and these facts is the walk behind an item that is put at the end of the script. -/
def Puts (w : Walk) (item : Item) (r : Reading) (w' : Walk) : Prop :=
  ∃ script, w.script.put? item = some script ∧ w' = ⟨script, r.scope, r.declared⟩

theorem set_eq_ok_iff {v : Variable} {value : Expr} :
    w.set v value = .ok w' ↔ ∃ item r, w.reading.Sets v value item r ∧ w.Puts item r w' := by
  unfold set
  constructor
  · intro h
    split at h
    · rename_i hl
      split at h
      · rename_i hd
        cases h
        exact ⟨_, _, .again hl hd, _, rfl, rfl⟩
      · rename_i hd
        obtain ⟨s, hs, h⟩ := bind_eq_ok_iff.1 h
        cases h
        exact ⟨_, _, .declare hl hd hs, _, rfl, rfl⟩
    · rename_i hl
      obtain ⟨s, hs, h⟩ := bind_eq_ok_iff.1 h
      cases h
      exact ⟨_, _, .store (Bool.eq_false_iff.2 hl) hs, _, rfl, rfl⟩
  · rintro ⟨item, r, hsets, script, hp, rfl⟩
    cases hsets with
    | declare hl hd hs =>
      cases hp
      change v ∉ w.declared at hd
      rw [if_pos hl, if_neg hd]
      exact bind_eq_ok_iff.2 ⟨_, hs, rfl⟩
    | again hl hd =>
      cases hp
      change v ∈ w.declared at hd
      rw [if_pos hl, if_pos hd]
      rfl
    | store hl hs =>
      cases hp
      rw [if_neg (by rw [hl]; nofun)]
      exact bind_eq_ok_iff.2 ⟨_, hs, rfl⟩

theorem update_eq_ok_iff {v : Variable} {operator : String} {value : Expr} :
    w.update v operator value = .ok w' ↔ ∃ item r, w.reading.Updates v operator value item r ∧ w.Puts item r w' := by
  unfold update
  constructor
  · intro h
    split at h
    · rename_i hl
      cases h
      exact ⟨_, _, .word hl, _, rfl, rfl⟩
    · rename_i hl
      obtain ⟨s, hs, h⟩ := bind_eq_ok_iff.1 h
      cases h
      exact ⟨_, _, .store (Bool.eq_false_iff.2 hl) hs, _, rfl, rfl⟩
  · rintro ⟨item, r, hupdates, script, hp, rfl⟩
    cases hupdates with
    | word hl =>
      cases hp
      rw [if_pos hl]
      rfl
    | store hl hs =>
      cases hp
      rw [if_neg (by rw [hl]; nofun)]
      exact bind_eq_ok_iff.2 ⟨_, hs, rfl⟩

theorem arm_eq_ok_iff {operator : String} {positions : List Nat} : w.arm image i operator positions = .ok w' ↔
    ∃ values r, (∃ w₁, w.exprs image i positions = .ok (values, w₁) ∧ r = w₁.reading) ∧
      w.Puts (.arm operator values) r w' := by
  unfold arm
  constructor
  · intro h
    split at h
    · rename_i value arms outside hswitch
      obtain ⟨⟨values, w₁⟩, h₁, h⟩ := bind_eq_ok_iff.1 h
      cases h
      refine ⟨values, _, ⟨w₁, h₁, rfl⟩, _, ?_, rfl⟩
      rw [OpenScript.put?, hswitch, Option.map_some]
    · cases h
  · rintro ⟨values, r, ⟨w₁, h₁, rfl⟩, script, hp, rfl⟩
    obtain ⟨⟨value, arms, outside⟩, hswitch, hp⟩ := Option.map_eq_some_iff.1 hp
    cases hp
    rw [hswitch]
    exact bind_eq_ok_iff.2 ⟨_, h₁, rfl⟩

theorem exprs_singleton_eq_ok_iff {position : Nat} {values : List Expr} :
    w.exprs image i [position] = .ok (values, w') ↔
      ∃ e s, ReadsAt image i.operands w.scope position e s ∧ values = [e] ∧ w' = { w with scope := s } := by
  constructor
  · intro h
    obtain ⟨⟨e, w₁⟩, h₁, h⟩ := bind_eq_ok_iff.1 h
    cases h
    obtain ⟨s, he, rfl⟩ := expr_eq_ok_iff.1 h₁
    exact ⟨e, s, he, rfl, rfl⟩
  · rintro ⟨e, s, he, rfl, rfl⟩
    exact bind_eq_ok_iff.2 ⟨_, expr_eq_ok_iff.2 ⟨s, he, rfl⟩, rfl⟩

theorem exprs_pair_eq_ok_iff {first second : Nat} {values : List Expr} :
    w.exprs image i [first, second] = .ok (values, w') ↔
      ∃ e s₁ e' s, ReadsAt image i.operands w.scope first e s₁ ∧ ReadsAt image i.operands s₁ second e' s ∧
        values = [e, e'] ∧ w' = { w with scope := s } := by
  constructor
  · intro h
    obtain ⟨⟨e, w₁⟩, h₁, h⟩ := bind_eq_ok_iff.1 h
    obtain ⟨⟨es, w₂⟩, h₂, h⟩ := bind_eq_ok_iff.1 h
    cases h
    obtain ⟨s₁, he, rfl⟩ := expr_eq_ok_iff.1 h₁
    obtain ⟨e', s, he', rfl, rfl⟩ := exprs_singleton_eq_ok_iff.1 h₂
    exact ⟨e, s₁, e', s, he, he', rfl, rfl⟩
  · rintro ⟨e, s₁, e', s, he, he', rfl, rfl⟩
    refine bind_eq_ok_iff.2 ⟨_, expr_eq_ok_iff.2 ⟨s₁, he, rfl⟩, ?_⟩
    exact bind_eq_ok_iff.2 ⟨_, exprs_singleton_eq_ok_iff.2 ⟨e', s, he', rfl, rfl⟩, rfl⟩

private theorem replace_eq_ok_iff {script? : Option OpenScript} {e : Failure} :
    (match script? with
      | some script => .ok { w with script }
      | none => .error e : Except Failure Walk) = .ok w' ↔ ∃ script, script? = some script ∧ w' = { w with script } := by
  cases script? with
  | none => exact ⟨nofun, nofun⟩
  | some script => exact ⟨fun h => by cases h; exact ⟨script, rfl, rfl⟩, fun ⟨_, h, h'⟩ => by cases h; rw [h']⟩

theorem close_eq_ok_iff {kind : BlockKind} :
    w.close i kind = .ok w' ↔ ∃ script, w.script.close? kind = some script ∧ w' = { w with script } :=
  replace_eq_ok_iff

theorem otherwise_eq_ok_iff :
    w.otherwise i = .ok w' ↔ ∃ script, w.script.otherwise? = some script ∧ w' = { w with script } :=
  replace_eq_ok_iff

theorem endSwitch_eq_ok_iff :
    w.endSwitch i = .ok w' ↔ ∃ script, w.script.endSwitch? = some script ∧ w' = { w with script } :=
  replace_eq_ok_iff

/-- The walk goes on with an item that the operation says. -/
private theorem says_of_perform {op : Opcode} (hop : op ≠ .finish) (h : (w.perform image i op).result = .ok w') :
    ∃ item r, Says image i.operands w.reading op item r ∧ w.Puts item r w' := by
  cases op with
  | finish => exact absurd rfl hop
  | ret =>
    cases h
    exact ⟨_, _, .ret, _, rfl, rfl⟩
  | label =>
    obtain ⟨a, ha, h⟩ := Logged.result_bind_eq_ok_iff.1 h
    cases h
    exact ⟨_, _, .label (Instruction.operand_eq_ok_iff.1 ha), _, rfl, rfl⟩
  | goto =>
    obtain ⟨a, ha, h⟩ := Logged.result_bind_eq_ok_iff.1 h
    cases h
    exact ⟨_, _, .goto (Instruction.operand_eq_ok_iff.1 ha), _, rfl, rfl⟩
  | loop =>
    obtain ⟨a, ha, h⟩ := Logged.result_bind_eq_ok_iff.1 h
    have ha := Instruction.operand_eq_ok_iff.1 ha
    split at h
    · rename_i hzero
      cases h
      exact ⟨_, _, .endlessLoop (hzero ▸ ha), _, rfl, rfl⟩
    · rename_i hzero
      obtain ⟨⟨count, w₁⟩, h₁, h⟩ := Logged.result_bind_eq_ok_iff.1 h
      obtain ⟨s, hs, rfl⟩ := expr_eq_ok_iff.1 h₁
      cases h
      refine ⟨_, _, .loop (fun h => hzero ?_) hs, _, rfl, rfl⟩
      rw [ha] at h
      exact Option.some.inj h
  | endLoop =>
    obtain ⟨script, hc, rfl⟩ := close_eq_ok_iff.1 h
    exact ⟨_, _, .endLoop, _, hc, rfl⟩
  | breakLoop =>
    cases h
    exact ⟨_, _, .breakLoop, _, rfl, rfl⟩
  | wait =>
    obtain ⟨⟨amount, w₁⟩, h₁, h⟩ := Logged.result_bind_eq_ok_iff.1 h
    obtain ⟨s, hs, rfl⟩ := expr_eq_ok_iff.1 h₁
    cases h
    exact ⟨_, _, .wait hs, _, rfl, rfl⟩
  | waitSeconds =>
    obtain ⟨⟨amount, w₁⟩, h₁, h⟩ := Logged.result_bind_eq_ok_iff.1 h
    obtain ⟨s, hs, rfl⟩ := expr_eq_ok_iff.1 h₁
    cases h
    exact ⟨_, _, .waitSeconds hs, _, rfl, rfl⟩
  | branch test =>
    obtain ⟨⟨lhs, w₁⟩, h₁, h⟩ := bind_eq_ok_iff.1 h
    obtain ⟨⟨rhs, w₂⟩, h₂, h⟩ := bind_eq_ok_iff.1 h
    obtain ⟨s₁, hlhs, rfl⟩ := expr_eq_ok_iff.1 h₁
    obtain ⟨s, hrhs, rfl⟩ := expr_eq_ok_iff.1 h₂
    cases h
    exact ⟨_, _, .branch hlhs hrhs, _, rfl, rfl⟩
  | branchMask =>
    obtain ⟨⟨lhs, w₁⟩, h₁, h⟩ := bind_eq_ok_iff.1 h
    obtain ⟨mask, hmask, h⟩ := bind_eq_ok_iff.1 h
    obtain ⟨s, hlhs, rfl⟩ := expr_eq_ok_iff.1 h₁
    cases h
    exact ⟨_, _, .branchMask hlhs (Instruction.operand_eq_ok_iff.1 hmask), _, rfl, rfl⟩
  | branchNotMask =>
    obtain ⟨⟨lhs, w₁⟩, h₁, h⟩ := bind_eq_ok_iff.1 h
    obtain ⟨mask, hmask, h⟩ := bind_eq_ok_iff.1 h
    obtain ⟨s, hlhs, rfl⟩ := expr_eq_ok_iff.1 h₁
    cases h
    exact ⟨_, _, .branchNotMask hlhs (Instruction.operand_eq_ok_iff.1 hmask), _, rfl, rfl⟩
  | otherwise =>
    obtain ⟨script, ho, rfl⟩ := otherwise_eq_ok_iff.1 h
    exact ⟨_, _, .otherwise, _, ho, rfl⟩
  | endBranch =>
    obtain ⟨script, hc, rfl⟩ := close_eq_ok_iff.1 h
    exact ⟨_, _, .endBranch, _, hc, rfl⟩
  | switch =>
    obtain ⟨⟨value, w₁⟩, h₁, h⟩ := Logged.result_bind_eq_ok_iff.1 h
    obtain ⟨s, hs, rfl⟩ := expr_eq_ok_iff.1 h₁
    cases h
    exact ⟨_, _, .switch hs, _, rfl, rfl⟩
  | switchConst =>
    obtain ⟨a, ha, h⟩ := Logged.result_bind_eq_ok_iff.1 h
    cases h
    exact ⟨_, _, .switchConst (Instruction.operand_eq_ok_iff.1 ha), _, rfl, rfl⟩
  | arm test =>
    obtain ⟨values, r, ⟨w₁, h₁, rfl⟩, hputs⟩ := arm_eq_ok_iff.1 h
    obtain ⟨e, s, he, rfl, rfl⟩ := exprs_singleton_eq_ok_iff.1 h₁
    exact ⟨_, _, .arm he, hputs⟩
  | armDefault =>
    obtain ⟨values, r, ⟨w₁, h₁, rfl⟩, hputs⟩ := arm_eq_ok_iff.1 h
    cases h₁
    exact ⟨_, _, .armDefault, hputs⟩
  | armRange =>
    obtain ⟨values, r, ⟨w₁, h₁, rfl⟩, hputs⟩ := arm_eq_ok_iff.1 h
    obtain ⟨low, s₁, high, s, hlow, hhigh, rfl, rfl⟩ := exprs_pair_eq_ok_iff.1 h₁
    exact ⟨_, _, .armRange hlow hhigh, hputs⟩
  | breakSwitch =>
    cases h
    exact ⟨_, _, .breakSwitch, _, rfl, rfl⟩
  | endSwitch =>
    obtain ⟨script, he, rfl⟩ := endSwitch_eq_ok_iff.1 h
    exact ⟨_, _, .endSwitch, _, he, rfl⟩
  | set | setFixed =>
    obtain ⟨v, hv, h⟩ := Logged.result_bind_eq_ok_iff.1 h
    obtain ⟨⟨value, w₁⟩, h₁, h⟩ := Logged.result_bind_eq_ok_iff.1 h
    obtain ⟨s, hs, rfl⟩ := expr_eq_ok_iff.1 h₁
    obtain ⟨item, r, hsets, hputs⟩ := set_eq_ok_iff.1 h
    exact ⟨item, r, .set (by decide) (Instruction.target_eq_ok_iff.1 hv) hs hsets, hputs⟩
  | setConst =>
    obtain ⟨v, hv, h⟩ := Logged.result_bind_eq_ok_iff.1 h
    obtain ⟨a, ha, h⟩ := Logged.result_bind_eq_ok_iff.1 h
    obtain ⟨item, r, hsets, hputs⟩ := set_eq_ok_iff.1 h
    exact ⟨item, r, .setConst (Instruction.target_eq_ok_iff.1 hv) (Instruction.operand_eq_ok_iff.1 ha) hsets, hputs⟩
  | arithmetic op =>
    obtain ⟨v, hv, h⟩ := Logged.result_bind_eq_ok_iff.1 h
    obtain ⟨⟨value, w₁⟩, h₁, h⟩ := Logged.result_bind_eq_ok_iff.1 h
    obtain ⟨s, hs, rfl⟩ := expr_eq_ok_iff.1 h₁
    obtain ⟨item, r, hupdates, hputs⟩ := update_eq_ok_iff.1 h
    exact ⟨item, r, .arithmetic (Instruction.target_eq_ok_iff.1 hv) hs hupdates, hputs⟩
  | call =>
    obtain ⟨target, ht, h⟩ := bind_eq_ok_iff.1 h
    obtain ⟨⟨arguments, s₁⟩, h₁, h⟩ := bind_eq_ok_iff.1 h
    obtain ⟨⟨callee, s₂⟩, h₂, h⟩ := bind_eq_ok_iff.1 h
    cases h
    exact ⟨_, _, .call (Instruction.operand_eq_ok_iff.1 ht) h₁ h₂, _, rfl, rfl⟩
  | exec =>
    obtain ⟨target, ht, h⟩ := Logged.result_bind_eq_ok_iff.1 h
    obtain ⟨⟨callee, s⟩, hs, h⟩ := Logged.result_bind_eq_ok_iff.1 h
    cases h
    exact ⟨_, _, .exec (Instruction.operand_eq_ok_iff.1 ht) hs, _, rfl, rfl⟩
  | execWait =>
    obtain ⟨target, ht, h⟩ := Logged.result_bind_eq_ok_iff.1 h
    obtain ⟨⟨callee, s⟩, hs, h⟩ := Logged.result_bind_eq_ok_iff.1 h
    cases h
    exact ⟨_, _, .execWait (Instruction.operand_eq_ok_iff.1 ht) hs, _, rfl, rfl⟩
  | thread =>
    cases h
    exact ⟨_, _, .thread, _, rfl, rfl⟩
  | childThread =>
    cases h
    exact ⟨_, _, .childThread, _, rfl, rfl⟩
  | endThread =>
    obtain ⟨script, hc, rfl⟩ := close_eq_ok_iff.1 h
    exact ⟨_, _, .endThread, _, hc, rfl⟩
  | endChildThread =>
    obtain ⟨script, hc, rfl⟩ := close_eq_ok_iff.1 h
    exact ⟨_, _, .endChildThread, _, hc, rfl⟩

private theorem perform_of_says {op : Opcode} {item : Item} {r : Reading} (h : Says image i.operands w.reading op item r)
    (hp : w.Puts item r w') : (w.perform image i op).result = .ok w' := by
  obtain ⟨script, hp, rfl⟩ := hp
  cases h with
  | ret | breakLoop | breakSwitch | thread | childThread =>
    cases hp
    rfl
  | label ha | goto ha | switchConst ha =>
    cases hp
    exact Logged.result_bind_eq_ok_iff.2 ⟨_, Instruction.operand_eq_ok_iff.2 ha, rfl⟩
  | endlessLoop ha =>
    cases hp
    refine Logged.result_bind_eq_ok_iff.2 ⟨_, Instruction.operand_eq_ok_iff.2 ha, ?_⟩
    rw [if_pos rfl]
    rfl
  | loop hne he =>
    cases hp
    obtain ⟨a, ha, -⟩ := id he
    have hzero : a ≠ 0 := fun hz => hne (hz ▸ ha)
    refine Logged.result_bind_eq_ok_iff.2 ⟨a, Instruction.operand_eq_ok_iff.2 ha, ?_⟩
    rw [if_neg hzero]
    exact Logged.result_bind_eq_ok_iff.2 ⟨_, expr_eq_ok_iff.2 ⟨_, he, rfl⟩, rfl⟩
  | wait he | waitSeconds he | switch he =>
    cases hp
    exact Logged.result_bind_eq_ok_iff.2 ⟨_, expr_eq_ok_iff.2 ⟨_, he, rfl⟩, rfl⟩
  | branch hlhs hrhs =>
    cases hp
    refine bind_eq_ok_iff.2 ⟨_, expr_eq_ok_iff.2 ⟨_, hlhs, rfl⟩, ?_⟩
    exact bind_eq_ok_iff.2 ⟨_, expr_eq_ok_iff.2 ⟨_, hrhs, rfl⟩, rfl⟩
  | branchMask hlhs hmask | branchNotMask hlhs hmask =>
    cases hp
    refine bind_eq_ok_iff.2 ⟨_, expr_eq_ok_iff.2 ⟨_, hlhs, rfl⟩, ?_⟩
    exact bind_eq_ok_iff.2 ⟨_, Instruction.operand_eq_ok_iff.2 hmask, rfl⟩
  | endLoop | endBranch | endThread | endChildThread => exact close_eq_ok_iff.2 ⟨script, hp, rfl⟩
  | otherwise => exact otherwise_eq_ok_iff.2 ⟨script, hp, rfl⟩
  | endSwitch => exact endSwitch_eq_ok_iff.2 ⟨script, hp, rfl⟩
  | arm he =>
    exact arm_eq_ok_iff.2 ⟨_, _, ⟨_, exprs_singleton_eq_ok_iff.2 ⟨_, _, he, rfl, rfl⟩, rfl⟩, script, hp, rfl⟩
  | armDefault => exact arm_eq_ok_iff.2 ⟨_, _, ⟨w, rfl, rfl⟩, script, hp, rfl⟩
  | armRange hlow hhigh =>
    exact arm_eq_ok_iff.2 ⟨_, _, ⟨_, exprs_pair_eq_ok_iff.2 ⟨_, _, _, _, hlow, hhigh, rfl, rfl⟩, rfl⟩, script, hp, rfl⟩
  | set hop hv he hsets =>
    rcases hop with rfl | rfl
    all_goals
      refine Logged.result_bind_eq_ok_iff.2 ⟨_, Instruction.target_eq_ok_iff.2 hv, ?_⟩
      refine Logged.result_bind_eq_ok_iff.2 ⟨_, expr_eq_ok_iff.2 ⟨_, he, rfl⟩, ?_⟩
      exact set_eq_ok_iff.2 ⟨item, r, hsets, script, hp, rfl⟩
  | setConst hv ha hsets =>
    refine Logged.result_bind_eq_ok_iff.2 ⟨_, Instruction.target_eq_ok_iff.2 hv, ?_⟩
    refine Logged.result_bind_eq_ok_iff.2 ⟨_, Instruction.operand_eq_ok_iff.2 ha, ?_⟩
    exact set_eq_ok_iff.2 ⟨item, r, hsets, script, hp, rfl⟩
  | arithmetic hv he hupdates =>
    refine Logged.result_bind_eq_ok_iff.2 ⟨_, Instruction.target_eq_ok_iff.2 hv, ?_⟩
    refine Logged.result_bind_eq_ok_iff.2 ⟨_, expr_eq_ok_iff.2 ⟨_, he, rfl⟩, ?_⟩
    exact update_eq_ok_iff.2 ⟨item, r, hupdates, script, hp, rfl⟩
  | call ht harguments hcallee =>
    cases hp
    refine bind_eq_ok_iff.2 ⟨_, Instruction.operand_eq_ok_iff.2 ht, ?_⟩
    exact bind_eq_ok_iff.2 ⟨_, harguments, bind_eq_ok_iff.2 ⟨_, hcallee, rfl⟩⟩
  | exec ht hcallee | execWait ht hcallee =>
    cases hp
    refine Logged.result_bind_eq_ok_iff.2 ⟨_, Instruction.operand_eq_ok_iff.2 ht, ?_⟩
    exact Logged.result_bind_eq_ok_iff.2 ⟨_, hcallee, rfl⟩

/-- Doing an instruction is saying an item and putting it at the end of the script. -/
theorem perform_eq_ok_iff {op : Opcode} (hop : op ≠ .finish) : (w.perform image i op).result = .ok w' ↔
    ∃ item r, Says image i.operands w.reading op item r ∧ w.Puts item r w' :=
  ⟨says_of_perform hop, fun ⟨_, _, h, hp⟩ => perform_of_says h hp⟩

end

end Walk

/-! ### Steps of the walk -/

theorem Reading.Sets.part {r r' : Reading} {v : Variable} {value : Expr} {item : Item} (h : r.Sets v value item r') :
    item.part = .simple := by
  cases h <;> rfl

theorem Reading.Updates.part {r r' : Reading} {v : Variable} {operator : String} {value : Expr} {item : Item}
    (h : r.Updates v operator value item r') : item.part = .simple := by
  cases h <;> rfl

/-- The part that an operation plays in its script; the one that finishes the script plays none. -/
def Opcode.part? : Opcode → Option Part
  | finish => none
  | ret | label | goto | breakLoop | wait | waitSeconds | breakSwitch => some .simple
  | set | setConst | setFixed | arithmetic _ | call | exec | execWait => some .simple
  | loop => some .loop
  | endLoop => some .endLoop
  | branch _ | branchMask | branchNotMask => some .branch
  | otherwise => some .otherwise
  | endBranch => some .endBranch
  | switch | switchConst => some .switch
  | arm _ | armDefault | armRange => some .arm
  | endSwitch => some .endSwitch
  | thread => some (.thread false)
  | endThread => some (.endThread false)
  | childThread => some (.thread true)
  | endChildThread => some (.endThread true)

section

variable {image : Option Overlay} {op : Opcode} {item : Item} {r r' : Reading}

/-- The part of an item depends on the operation alone. -/
theorem Says.part {ws : List Int32} (h : Says image ws r op item r') : op.part? = some item.part := by
  cases h with
  | set hop _ _ hsets =>
    rw [hsets.part]
    rcases hop with rfl | rfl <;> rfl
  | setConst _ _ hsets => rw [hsets.part]; rfl
  | arithmetic _ _ hupdates => rw [hupdates.part]; rfl
  | _ => rfl

theorem isSwitchPart_eq_of_part (h : op.part? = some item.part) : op.isSwitchPart = item.isSwitchPart := by
  cases op <;> cases item <;> first | rfl | cases h

/-- What an instruction with a known operation says. -/
def Instruction.Says (image : Option Overlay) (i : Instruction) (r : Reading) (item : Item) (r' : Reading) : Prop :=
  ∃ op, i.opcode? = some op ∧ MapScript.Says image i.operands r op item r'

theorem Walk.step_eq_ok_iff {w w' : Walk} {i : Instruction} (hi : i.isFinish = false) :
    (w.step image i).result = .ok w' ↔ ∃ item r script, i.Says image w.reading item r ∧
      w.script.add? item = some script ∧ w' = ⟨script, r.scope, r.declared⟩ := by
  have hfinish : i.opcode? ≠ some .finish := of_decide_eq_false hi
  have hadd : ∀ {op : Opcode} {item : Item}, op.part? = some item.part →
      w.script.add? item = if w.script.awaitsArm && !op.isSwitchPart then none else w.script.put? item := by
    intro op item hpart
    rw [OpenScript.add?, isSwitchPart_eq_of_part hpart]
  constructor
  · intro h
    unfold step at h
    split at h
    · cases h
    · rename_i op hop
      split at h
      · cases h
      · rename_i hguard
        obtain ⟨item, r, hsaid, script, hp, rfl⟩ := (perform_eq_ok_iff fun h => hfinish (h ▸ hop)).1 h
        exact ⟨item, r, script, ⟨op, hop, hsaid⟩, by rw [hadd hsaid.part, if_neg hguard, hp], rfl⟩
  · rintro ⟨item, r, script, ⟨op, hop, hsaid⟩, ha, rfl⟩
    rw [hadd hsaid.part] at ha
    unfold step
    rw [hop]
    simp only
    split
    · rename_i hguard
      rw [if_pos hguard] at ha
      cases ha
    · rename_i hguard
      rw [if_neg hguard] at ha
      exact (perform_eq_ok_iff fun h => hfinish (h ▸ hop)).2 ⟨item, r, hsaid, script, ha, rfl⟩

end

end MapScript
