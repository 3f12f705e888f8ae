import MapScript.Proofs.Decoding.Readings

/-!
# Outcomes of steps

In a scope with layers all operands can be read. So an operation with enough operands, and with a variable among them
where it writes to one, says something (`exists_item`), and a step of the walk ends in a walk or in a fault of its
instruction (`Walk.step_ends`).
-/

namespace MapScript

/-! ### Reading in a scope with layers -/

section

variable {s : Scope} {F : Failure → Prop} (image : Option Overlay)

/-- The layers of a scope are as many as those of another one. -/
def Scope.SameDepth (s s' : Scope) : Prop := s'.depth = s.depth

theorem Scope.bindName_ends (hs : 0 < s.depth) (name : Text) (type : DataType) :
    Ends s.SameDepth F (s.bindName name type) := by
  obtain ⟨_ | ⟨layer, outer⟩⟩ := s
  · cases hs
  · exact .ok rfl

theorem Scope.bindAddress_ends (hs : 0 < s.depth) (address : Int) (name : Text) (type : DataType) :
    Ends s.SameDepth F (s.bindAddress address name type) := by
  obtain ⟨_ | ⟨layer, outer⟩⟩ := s
  · cases hs
  · exact .ok rfl

theorem Scope.meet_ends (hs : 0 < s.depth) (v : Variable) : Ends s.SameDepth F (s.meet v) := by
  unfold meet
  split
  · exact .ok rfl
  · exact bindName_ends hs ..

theorem readExpr_ends (hs : 0 < s.depth) (w : Int32) :
    Ends (fun r => s.SameDepth r.2) F (readExpr image w s) := by
  unfold readExpr
  split
  · exact .ok rfl
  · split
    · exact .ok rfl
    · exact .ok rfl
    · split
      · exact .ok rfl
      · exact (Scope.meet_ends hs _).bind fun _ _ h => .ok h

theorem readExprs_ends (hs : 0 < s.depth) (ws : List Int32) :
    Ends (fun r => s.SameDepth r.2) F (readExprs image ws s) := by
  induction ws generalizing s with
  | nil => exact .ok rfl
  | cons w rest ih =>
    refine (readExpr_ends image hs w).bind fun ⟨e, s₁⟩ _ h₁ => ?_
    refine (ih (h₁ ▸ hs)).bind fun ⟨es, s₂⟩ _ h₂ => .ok ?_
    exact h₂.trans h₁

theorem readMethod_ends (hs : 0 < s.depth) (target : Int32) (arity : Nat) :
    Ends (fun r => s.SameDepth r.2) F (readMethod target arity s) := by
  unfold readMethod
  split
  · exact .ok rfl
  · simp only
    split
    · exact .ok rfl
    · exact (Scope.bindAddress_ends hs ..).bind fun _ _ h => .ok h

theorem readScript_ends (hs : 0 < s.depth) (target : Int32) :
    Ends (fun r => s.SameDepth r.2) F (readScript image target s).result := by
  unfold readScript
  split
  · exact .ok rfl
  · simp only
    split
    · exact .ok rfl
    · rw [Logged.result_bind]
      have hcaptured : ∀ address, Ends (fun _ => True) F (capturedBy image address).result := by
        intro address
        unfold capturedBy
        split
        · exact .ok trivial
        · exact .ok trivial
      refine (hcaptured _).bind fun arity _ _ => ?_
      rw [Logged.result_bind]
      exact (Scope.bindAddress_ends hs ..).bind fun _ _ h => .ok h

end

/-! ### What operations with enough operands say -/

/-- Operands that an operation needs. -/
def Opcode.arity : Opcode → Nat
  | label | goto | loop | wait | waitSeconds | switch | switchConst | arm _ | call | exec | execWait => 1
  | branch _ | branchMask | branchNotMask | armRange | set | setConst | setFixed | arithmetic _ => 2
  | _ => 0

/-- Whether the operation gives the variable that its first operand stands for a value. -/
def Opcode.writes (op : Opcode) : Bool := op.isSet || op.isArithmetic

section

variable {image : Option Overlay} {ws : List Int32} {r : Reading} {v : Variable} {value : Expr}

private theorem exists_operand {position : Nat} (h : position < ws.length) : ∃ a, ws[position]? = some a :=
  ⟨ws[position], List.getElem?_eq_getElem h⟩

private theorem exists_readsAt {s : Scope} {position : Nat} (hs : 0 < s.depth) (h : position < ws.length) :
    ∃ e s', ReadsAt image ws s position e s' ∧ s.SameDepth s' := by
  obtain ⟨a, ha⟩ := exists_operand h
  obtain ⟨⟨e, s'⟩, he, hd⟩ := (readExpr_ends image hs a).exists_ok
  exact ⟨e, s', ⟨a, ha, he⟩, hd⟩

private theorem Reading.exists_sets (r : Reading) (hr : 0 < r.scope.depth) (v : Variable) (value : Expr) :
    ∃ item r', r.Sets v value item r' ∧ r.scope.SameDepth r'.scope := by
  by_cases hl : v.storage.isLocal = true
  · by_cases hd : v ∈ r.declared
    · exact ⟨_, _, .again hl hd, rfl⟩
    · obtain ⟨s, hs, hdepth⟩ := (r.scope.bindName_ends hr v.name v.initialType).exists_ok
      exact ⟨_, _, .declare hl hd hs, hdepth⟩
  · obtain ⟨s, hs, hdepth⟩ := (r.scope.meet_ends hr v).exists_ok
    exact ⟨_, _, .store (Bool.eq_false_iff.2 hl) hs, hdepth⟩

private theorem Reading.exists_updates (r : Reading) (hr : 0 < r.scope.depth) (v : Variable) (operator : String)
    (value : Expr) : ∃ item r', r.Updates v operator value item r' ∧ r.scope.SameDepth r'.scope := by
  by_cases hl : v.storage.isLocal = true
  · exact ⟨_, _, .word hl, rfl⟩
  · obtain ⟨s, hs, hdepth⟩ := (r.scope.meet_ends hr v).exists_ok
    exact ⟨_, _, .store (Bool.eq_false_iff.2 hl) hs, hdepth⟩

variable (image) in
/-- An operation says something when it has its operands and writes to variables only. -/
theorem exists_item {op : Opcode} (hr : 0 < r.scope.depth) (hop : op ≠ .finish) (harity : op.arity ≤ ws.length)
    (hwrites : op.writes = true → ∃ v, Targets ws v) :
    ∃ item r', Says image ws r op item r' ∧ r.scope.SameDepth r'.scope := by
  -- what is there at the positions of the operands
  have hoperand : ∀ position, position < op.arity → ∃ a, ws[position]? = some a :=
    fun position h => exists_operand (Nat.lt_of_lt_of_le h harity)
  have hread : ∀ {s}, r.scope.SameDepth s → ∀ position, position < op.arity →
      ∃ e s', ReadsAt image ws s position e s' ∧ r.scope.SameDepth s' := by
    intro s hs position h
    obtain ⟨e, s', he, hd⟩ := exists_readsAt (hs ▸ hr) (Nat.lt_of_lt_of_le h harity)
    exact ⟨e, s', he, hd.trans hs⟩
  cases op with
  | finish => exact absurd rfl hop
  | ret => exact ⟨_, _, .ret, rfl⟩
  | endLoop => exact ⟨_, _, .endLoop, rfl⟩
  | breakLoop => exact ⟨_, _, .breakLoop, rfl⟩
  | otherwise => exact ⟨_, _, .otherwise, rfl⟩
  | endBranch => exact ⟨_, _, .endBranch, rfl⟩
  | armDefault => exact ⟨_, _, .armDefault, rfl⟩
  | breakSwitch => exact ⟨_, _, .breakSwitch, rfl⟩
  | endSwitch => exact ⟨_, _, .endSwitch, rfl⟩
  | thread => exact ⟨_, _, .thread, rfl⟩
  | endThread => exact ⟨_, _, .endThread, rfl⟩
  | childThread => exact ⟨_, _, .childThread, rfl⟩
  | endChildThread => exact ⟨_, _, .endChildThread, rfl⟩
  | label =>
    obtain ⟨a, ha⟩ := hoperand 0 Nat.one_pos
    exact ⟨_, _, .label ha, rfl⟩
  | goto =>
    obtain ⟨a, ha⟩ := hoperand 0 Nat.one_pos
    exact ⟨_, _, .goto ha, rfl⟩
  | switchConst =>
    obtain ⟨a, ha⟩ := hoperand 0 Nat.one_pos
    exact ⟨_, _, .switchConst ha, rfl⟩
  | loop =>
    by_cases hzero : ws[0]? = some 0
    · exact ⟨_, _, .endlessLoop hzero, rfl⟩
    · obtain ⟨e, s, he, hs⟩ := hread rfl 0 (Nat.succ_pos _)
      exact ⟨_, _, .loop hzero he, hs⟩
  | wait =>
    obtain ⟨e, s, he, hs⟩ := hread rfl 0 (Nat.succ_pos _)
    exact ⟨_, _, .wait he, hs⟩
  | waitSeconds =>
    obtain ⟨e, s, he, hs⟩ := hread rfl 0 (Nat.succ_pos _)
    exact ⟨_, _, .waitSeconds he, hs⟩
  | switch =>
    obtain ⟨e, s, he, hs⟩ := hread rfl 0 (Nat.succ_pos _)
    exact ⟨_, _, .switch he, hs⟩
  | arm test =>
    obtain ⟨e, s, he, hs⟩ := hread rfl 0 (Nat.succ_pos _)
    exact ⟨_, _, .arm he, hs⟩
  | branch test =>
    obtain ⟨lhs, s₁, hlhs, hs₁⟩ := hread rfl 0 (Nat.succ_pos _)
    obtain ⟨rhs, s, hrhs, hs⟩ := hread hs₁ 1 Nat.one_lt_two
    exact ⟨_, _, .branch hlhs hrhs, hs⟩
  | armRange =>
    obtain ⟨low, s₁, hlow, hs₁⟩ := hread rfl 0 (Nat.succ_pos _)
    obtain ⟨high, s, hhigh, hs⟩ := hread hs₁ 1 Nat.one_lt_two
    exact ⟨_, _, .armRange hlow hhigh, hs⟩
  | branchMask =>
    obtain ⟨lhs, s, hlhs, hs⟩ := hread rfl 0 (Nat.succ_pos _)
    obtain ⟨mask, hmask⟩ := hoperand 1 Nat.one_lt_two
    exact ⟨_, _, .branchMask hlhs hmask, hs⟩
  | branchNotMask =>
    obtain ⟨lhs, s, hlhs, hs⟩ := hread rfl 0 (Nat.succ_pos _)
    obtain ⟨mask, hmask⟩ := hoperand 1 Nat.one_lt_two
    exact ⟨_, _, .branchNotMask hlhs hmask, hs⟩
  | set | setFixed =>
    obtain ⟨v, hv⟩ := hwrites rfl
    obtain ⟨value, s, hvalue, hs⟩ := hread rfl 1 Nat.one_lt_two
    obtain ⟨item, r', hsets, hd⟩ := Reading.exists_sets { r with scope := s } (hs ▸ hr) v value
    exact ⟨item, r', .set (by decide) hv hvalue hsets, hd.trans hs⟩
  | setConst =>
    obtain ⟨v, hv⟩ := hwrites rfl
    obtain ⟨a, ha⟩ := hoperand 1 Nat.one_lt_two
    obtain ⟨item, r', hsets, hd⟩ := r.exists_sets hr v (constantExpr a r.scope)
    exact ⟨item, r', .setConst hv ha hsets, hd⟩
  | arithmetic op =>
    obtain ⟨v, hv⟩ := hwrites rfl
    obtain ⟨value, s, hvalue, hs⟩ := hread rfl 1 Nat.one_lt_two
    obtain ⟨item, r', hupdates, hd⟩ := Reading.exists_updates { r with scope := s } (hs ▸ hr) v op.symbol value
    exact ⟨item, r', .arithmetic hv hvalue hupdates, hd.trans hs⟩
  | call =>
    obtain ⟨target, ht⟩ := hoperand 0 Nat.one_pos
    obtain ⟨⟨arguments, s₁⟩, h₁, hs₁⟩ := (readExprs_ends image hr (ws.drop 1)).exists_ok
    obtain ⟨⟨callee, s⟩, hcallee, hs⟩ := (readMethod_ends (hs₁ ▸ hr) target arguments.length).exists_ok
    exact ⟨_, _, .call ht h₁ hcallee, hs.trans hs₁⟩
  | exec =>
    obtain ⟨target, ht⟩ := hoperand 0 Nat.one_pos
    obtain ⟨⟨callee, s⟩, hcallee, hs⟩ := (readScript_ends image hr target).exists_ok
    exact ⟨_, _, .exec ht hcallee, hs⟩
  | execWait =>
    obtain ⟨target, ht⟩ := hoperand 0 Nat.one_pos
    obtain ⟨⟨callee, s⟩, hcallee, hs⟩ := (readScript_ends image hr target).exists_ok
    exact ⟨_, _, .execWait ht hcallee, hs⟩

end

/-! ### Steps that fail -/

private theorem Ends.result_bind {α β : Type} {Q : α → Prop} {Q' : β → Prop} {F : Failure → Prop} {x : Logged Failure α}
    {f : α → Logged Failure β} (hx : Ends Q F x.result) (hf : ∀ a, Q a → Ends Q' F (f a).result) :
    Ends Q' F (x >>= f).result := by
  rw [Logged.result_bind]
  exact hx.bind fun a _ h => hf a h

/-- Whether a failure is a fault of the instruction; that a script is cut short is none. -/
def Instruction.IsFault (i : Instruction) (e : Failure) : Prop := ∃ fault, fault ≠ .truncated ∧ e = i.failure fault

theorem Instruction.isFault_failure (i : Instruction) {fault : DecodeFault} (h : fault ≠ .truncated) :
    i.IsFault (i.failure fault) :=
  ⟨fault, h, rfl⟩

theorem Instruction.operand_ends (i : Instruction) (position : Nat) :
    Ends (fun _ => True) i.IsFault (i.operand position) := by
  unfold operand
  split
  · exact .ok trivial
  · exact .error (i.isFault_failure nofun)

theorem Instruction.target_ends (i : Instruction) : Ends (fun _ => True) i.IsFault i.target := by
  refine (i.operand_ends 0).bind fun a _ _ => ?_
  split
  · exact .ok trivial
  · exact .error (i.isFault_failure nofun)

namespace Walk

variable {w : Walk} {image : Option Overlay}

/-- A step ends behind its instruction in a scope that is as deep, or in a fault of the instruction. -/
def StepEnds (w : Walk) (i : Instruction) : Except Failure Walk → Prop :=
  Ends (fun w' => w.scope.SameDepth w'.scope) i.IsFault

section

variable {i : Instruction}

theorem expr_ends (hw : 0 < w.scope.depth) (position : Nat) :
    Ends (fun r => w.scope.SameDepth r.2.scope) i.IsFault (w.expr image i position) := by
  refine (i.operand_ends position).bind fun a _ _ => ?_
  exact (readExpr_ends image hw a).bind fun _ _ h => .ok h

theorem exprs_ends (hw : 0 < w.scope.depth) (positions : List Nat) :
    Ends (fun r => w.scope.SameDepth r.2.scope) i.IsFault (w.exprs image i positions) := by
  induction positions generalizing w with
  | nil => exact .ok rfl
  | cons position rest ih =>
    refine (expr_ends hw position).bind fun ⟨e, w₁⟩ _ h₁ => ?_
    refine (ih (h₁ ▸ hw)).bind fun ⟨es, w₂⟩ _ h₂ => .ok ?_
    exact h₂.trans h₁

theorem set_ends (hw : 0 < w.scope.depth) (v : Variable) (value : Expr) : w.StepEnds i (w.set v value) := by
  unfold set
  split
  · split
    · exact .ok rfl
    · exact (w.scope.bindName_ends hw ..).bind fun _ _ h => .ok h
  · exact (w.scope.meet_ends hw v).bind fun _ _ h => .ok h

theorem update_ends (hw : 0 < w.scope.depth) (v : Variable) (operator : String) (value : Expr) :
    w.StepEnds i (w.update v operator value) := by
  unfold update
  split
  · exact .ok rfl
  · exact (w.scope.meet_ends hw v).bind fun _ _ h => .ok h

theorem branch_ends (hw : 0 < w.scope.depth) (test : Relation) : w.StepEnds i (w.branch image i test) := by
  refine (expr_ends hw 0).bind fun ⟨lhs, w₁⟩ _ h₁ => ?_
  refine (expr_ends (h₁ ▸ hw) 1).bind fun ⟨rhs, w₂⟩ _ h₂ => .ok ?_
  exact h₂.trans h₁

theorem branchMask_ends (hw : 0 < w.scope.depth) (operator : String) : w.StepEnds i (w.branchMask image i operator) := by
  refine (expr_ends hw 0).bind fun ⟨lhs, w₁⟩ _ h₁ => ?_
  exact (i.operand_ends 1).bind fun _ _ _ => .ok h₁

theorem arm_ends (hw : 0 < w.scope.depth) (operator : String) (positions : List Nat) :
    w.StepEnds i (w.arm image i operator positions) := by
  unfold arm
  split
  · exact (exprs_ends hw positions).bind fun _ _ h => .ok h
  · exact .error (i.isFault_failure nofun)

private theorem replace_ends {script? : Option OpenScript} {cause : Imbalance} :
    w.StepEnds i (match script? with
      | some script => .ok { w with script }
      | none => .error (i.failure (.unbalanced cause))) := by
  cases script? with
  | none => exact .error (i.isFault_failure nofun)
  | some script => exact .ok rfl

theorem exec_ends (hw : 0 < w.scope.depth) (kind : CallKind) : w.StepEnds i (w.exec image i kind).result := by
  refine Ends.result_bind (i.operand_ends 0) fun target _ => ?_
  exact Ends.result_bind (readScript_ends image hw target) fun _ h => .ok h

theorem call_ends (hw : 0 < w.scope.depth) : w.StepEnds i (w.call image i) := by
  refine (i.operand_ends 0).bind fun target _ _ => ?_
  refine (readExprs_ends image hw (i.operands.drop 1)).bind fun ⟨arguments, s₁⟩ _ h₁ => ?_
  refine (readMethod_ends (h₁ ▸ hw) target arguments.length).bind fun ⟨callee, s₂⟩ _ h₂ => .ok ?_
  exact h₂.trans h₁

theorem perform_ends (hw : 0 < w.scope.depth) (op : Opcode) : w.StepEnds i (w.perform image i op).result := by
  cases op with
  | finish | ret | breakLoop | breakSwitch | thread | childThread => exact .ok rfl
  | label | goto | switchConst => exact Ends.result_bind (i.operand_ends 0) fun _ _ => .ok rfl
  | loop =>
    refine Ends.result_bind (i.operand_ends 0) fun a _ => ?_
    split
    · exact .ok rfl
    · exact Ends.result_bind (expr_ends hw 0) fun _ h => .ok h
  | wait | waitSeconds | switch => exact Ends.result_bind (expr_ends hw 0) fun _ h => .ok h
  | branch test => exact branch_ends hw test
  | branchMask | branchNotMask => exact branchMask_ends hw _
  | arm | armDefault | armRange => exact arm_ends hw _ _
  | endLoop | endBranch | endThread | endChildThread | otherwise | endSwitch => exact replace_ends
  | set | setFixed =>
    refine Ends.result_bind i.target_ends fun v _ => ?_
    refine Ends.result_bind (expr_ends hw 1) fun ⟨value, w₁⟩ h₁ => ?_
    exact (set_ends (h₁ ▸ hw) v value).imp fun _ h => h.trans h₁
  | setConst =>
    refine Ends.result_bind i.target_ends fun v _ => ?_
    exact Ends.result_bind (i.operand_ends 1) fun a _ => set_ends hw v _
  | arithmetic op =>
    refine Ends.result_bind i.target_ends fun v _ => ?_
    refine Ends.result_bind (expr_ends hw 1) fun ⟨value, w₁⟩ h₁ => ?_
    exact (update_ends (h₁ ▸ hw) v op.symbol value).imp fun _ h => h.trans h₁
  | call => exact call_ends hw
  | exec | execWait => exact exec_ends hw _

end

theorem step_ends (hw : 0 < w.scope.depth) (i : Instruction) : w.StepEnds i (w.step image i).result := by
  unfold step
  split
  · exact .error (i.isFault_failure nofun)
  · split
    · exact .error (i.isFault_failure nofun)
    · exact perform_ends hw _

end Walk

end MapScript
