import MapScript.Proofs.Decoding.Bindings
import MapScript.Proofs.Script.Uses

/-!
# What items read and write

Some of the operands of an instruction are evaluated: the expressions of its item stand for them. So the names in these
expressions are those of variables among the evaluated operands (`Says.exists_evaluated`), and all of them unless an
operand is the address of something known (`Says.mem_identifiers`). The first operand may be taken for a variable that is
set, written or consulted as such (`Says.set?_eq_iff`, `Says.written?_eq_iff`, `Says.consulted?_eq_iff`). Other operands
are taken as they are or not at all.
-/

namespace MapScript

/-- Operands that an operation evaluates. -/
def Opcode.evaluated (op : Opcode) (ws : List Int32) : List Int32 :=
  match op with
  | loop | wait | waitSeconds | branchMask | branchNotMask | switch | arm _ => ws.take 1
  | branch _ | armRange => ws.take 2
  | set | setFixed | arithmetic _ => (ws.drop 1).take 1
  | call => ws.drop 1
  | _ => []

section

variable {image : Option Overlay} {s s' : Scope} {w : Int32} {v : Variable} {name : Text} {e : Expr}

/-- A name in the expression of a word is that of a variable, which is bound if it lies outside the script. -/
theorem exists_variable_of_readExpr (h : readExpr image w s = .ok (e, s')) (hn : name ∈ e.identifiers) :
    ∃ v, Operand.ofInt w.toInt = .variable v ∧ name = v.name ∧
      (v.storage.isLocal = false → (s'.typeOf? name).isSome) := by
  unfold readExpr at h
  split at h
  · cases h
    cases hn
  · split at h
    · cases h
      cases hn
    · cases h
      cases hn
    · rename_i v hv
      refine ⟨v, hv, ?_⟩
      split at h
      · rename_i hl
        cases h
        exact ⟨List.mem_singleton.1 hn, fun hf => absurd hl (by rw [hf]; exact Bool.false_ne_true)⟩
      · obtain ⟨s₁, hmeet, h⟩ := bind_eq_ok_iff.1 h
        cases h
        obtain rfl := List.mem_singleton.1 hn
        exact ⟨rfl, fun _ => isSome_of_meet hmeet⟩

/-- What is no address later is none before. -/
theorem Scope.Gains.isPointer_eq_false {P : Int → Text → DataType → Prop} (h : s.Gains P s')
    (hw : isPointer image s' w = false) : isPointer image s w = false := by
  rw [isPointer, Bool.or_eq_false_iff, Option.isSome_eq_false_iff, Option.isNone_iff_eq_none] at hw ⊢
  exact ⟨h.nameAt?_eq_none hw.1, hw.2⟩

/-- A variable is read as its name unless the word is an address. -/
theorem eq_identifier_of_readExpr (h : readExpr image w s = .ok (e, s')) (hv : Operand.ofInt w.toInt = .variable v)
    (hw : isPointer image s' w = false) : e = .identifier v.name := by
  have hbefore : isPointer image s w = false := (gains_of_readExpr h).isPointer_eq_false hw
  unfold readExpr at h
  rw [hbefore, hv] at h
  simp only [Bool.false_eq_true, if_false] at h
  split at h
  · cases h
    rfl
  · obtain ⟨s₁, -, h⟩ := bind_eq_ok_iff.1 h
    cases h
    rfl

end

/-! ### Items that write -/

section

variable {r r' : Reading} {v v' : Variable} {value : Expr} {item : Item}

theorem Arithmetic.symbol_ne_set (op : Arithmetic) : op.symbol ≠ "=" := by
  cases op <;> decide

namespace Reading.Sets

variable (h : r.Sets v value item r')

include h

theorem set?_eq : item.set? = some v.name := by
  cases h <;> rfl

theorem written?_eq : item.written? = some v.name := by
  cases h <;> rfl

theorem consulted?_eq : item.consulted? = none := by
  cases h <;> rfl

theorem expressions_eq : item.expressions = [value] := by
  cases h <;> rfl

end Reading.Sets

namespace Reading.Updates

variable {op : Arithmetic} (h : r.Updates v op.symbol value item r')

include h

theorem set?_eq : item.set? = none := by
  cases h <;> exact if_neg op.symbol_ne_set

theorem written?_eq : item.written? = some v.name := by
  cases h <;> rfl

theorem consulted?_eq : item.consulted? = some v.name := by
  cases h <;> exact if_neg op.symbol_ne_set

theorem expressions_eq : item.expressions = [value] := by
  cases h <;> rfl

end Reading.Updates

theorem Targets.eq {ws : List Int32} (h : Targets ws v) (h' : Targets ws v') : v = v' := by
  obtain ⟨a, ha, hv⟩ := h
  obtain ⟨a', ha', hv'⟩ := h'
  rw [ha, Option.some.injEq] at ha'
  subst ha'
  rw [hv, Operand.variable.injEq] at hv'
  exact hv'

/-- The name of the first operand tells which variable this is. -/
theorem Targets.name_eq_iff {ws : List Int32} (h : Targets ws v') : some v'.name = some v.name ↔ Targets ws v := by
  rw [Option.some.injEq]
  constructor
  · intro hname
    exact Variable.name_injective hname ▸ h
  · intro hv
    rw [h.eq hv]

end

/-! ### Operands of one instruction -/

/-- The expression of a word, in some scope on the way to this one. -/
def Stands (image : Option Overlay) (s' : Scope) (w : Int32) (e : Expr) : Prop :=
  ∃ s₁ s₂, readExpr image w s₁ = .ok (e, s₂) ∧ s₂.Gains (fun _ _ _ => True) s'

section

variable {image : Option Overlay} {ws : List Int32} {s s' : Scope} {a b : Int32} {e : Expr}

private theorem Scope.Gains.toAny {P : Int → Text → DataType → Prop} (h : s.Gains P s') :
    s.Gains (fun _ _ _ => True) s' := h.mono fun _ _ _ _ => trivial

private theorem Stands.of_readExpr (h : readExpr image a s = .ok (e, s')) : Stands image s' a e :=
  ⟨s, s', h, .refl⟩

private theorem Stands.later {P : Int → Text → DataType → Prop} {s₁ : Scope} (h : Stands image s₁ a e)
    (h' : s₁.Gains P s') : Stands image s' a e := by
  obtain ⟨s, s₂, he, hgains⟩ := h
  exact ⟨s, s₂, he, hgains.trans h'.toAny⟩

private theorem stands_of_readExprs {es : List Expr} (h : readExprs image ws s = .ok (es, s')) :
    List.Forall₂ (Stands image s') ws es := by
  induction ws generalizing s es with
  | nil =>
    cases h
    exact .nil
  | cons w rest ih =>
    obtain ⟨⟨e, s₁⟩, he, h⟩ := bind_eq_ok_iff.1 h
    obtain ⟨⟨es, s₂⟩, hes, h⟩ := bind_eq_ok_iff.1 h
    cases h
    exact .cons ((Stands.of_readExpr he).later (gains_of_readExprs hes).1) (ih hes)

private theorem take_one (h : ws[0]? = some a) : ws.take 1 = [a] := by
  rw [List.take_one, List.head?_eq_getElem?, h]
  rfl

private theorem take_drop_one (h : ws[1]? = some b) : (ws.drop 1).take 1 = [b] :=
  take_one (by rw [List.getElem?_drop, h])

private theorem take_two (h : ws[0]? = some a) (h' : ws[1]? = some b) : ws.take 2 = [a, b] := by
  have htail := take_drop_one h'
  match ws, h with
  | c :: rest, h =>
    cases h
    rw [List.drop_one, List.tail_cons] at htail
    rw [List.take_succ_cons, htail]

private theorem ReadsAt.stands_first (h : ReadsAt image ws s 0 e s') :
    List.Forall₂ (Stands image s') (ws.take 1) [e] := by
  obtain ⟨a, ha, he⟩ := h
  rw [take_one ha]
  exact .cons (.of_readExpr he) .nil

private theorem ReadsAt.stands_second (h : ReadsAt image ws s 1 e s') :
    List.Forall₂ (Stands image s') ((ws.drop 1).take 1) [e] := by
  obtain ⟨b, hb, he⟩ := h
  rw [take_drop_one hb]
  exact .cons (.of_readExpr he) .nil

private theorem ReadsAt.stands_both {s₁ : Scope} {e' : Expr} (h : ReadsAt image ws s 0 e s₁)
    (h' : ReadsAt image ws s₁ 1 e' s') : List.Forall₂ (Stands image s') (ws.take 2) [e, e'] := by
  obtain ⟨a, ha, he⟩ := h
  obtain ⟨b, hb, he'⟩ := id h'
  rw [take_two ha hb]
  exact .cons ((Stands.of_readExpr he).later h'.gains) (.cons (.of_readExpr he') .nil)

variable (image s) in
/-- The operand of an endless loop names nothing, though it might be an address. -/
private theorem stands_zero (h : ws[0]? = some 0) :
    ∃ e, List.Forall₂ (Stands image s) (ws.take 1) [e] ∧ e.identifiers = [] := by
  rw [take_one h]
  by_cases hp : isPointer image s 0 = true
  · have he : readExpr image 0 s = .ok (.pointer (unsigned 0), s) := by rw [readExpr, if_pos hp]
    exact ⟨_, .cons (.of_readExpr he) .nil, rfl⟩
  · have he : readExpr image 0 s = .ok (.int 0, s) := by rw [readExpr, if_neg hp]; rfl
    exact ⟨_, .cons (.of_readExpr he) .nil, rfl⟩

private theorem identifiers_constantExpr : (constantExpr a s).identifiers = [] := by
  unfold constantExpr
  split <;> rfl

/-- The expressions of an item are those of the evaluated operands, as far as names go. -/
theorem Says.exists_stands {r r' : Reading} {op : Opcode} {item : Item} (h : Says image ws r op item r') :
    ∃ es, List.Forall₂ (Stands image r'.scope) (op.evaluated ws) es ∧
      item.expressions.flatMap Expr.identifiers = es.flatMap Expr.identifiers := by
  cases h with
  | endlessLoop hzero =>
    obtain ⟨e, he, hnames⟩ := stands_zero image r.scope hzero
    exact ⟨[e], he, by rw [List.flatMap_singleton, hnames]; rfl⟩
  | loop _ he | wait he | waitSeconds he | switch he | arm he => exact ⟨_, he.stands_first, rfl⟩
  | branchMask he | branchNotMask he => exact ⟨_, he.stands_first, by simp [Item.expressions, Expr.identifiers]⟩
  | branch hlhs hrhs => exact ⟨_, hlhs.stands_both hrhs, by simp [Item.expressions, Expr.identifiers]⟩
  | armRange hlow hhigh => exact ⟨_, hlow.stands_both hhigh, rfl⟩
  | set hop _ he hsets =>
    refine ⟨_, ?_, by rw [hsets.expressions_eq]⟩
    have hstands := he.stands_second.imp fun _ _ h => h.later hsets.gains
    rcases hop with rfl | rfl
    · exact hstands
    · exact hstands
  | setConst _ _ hsets =>
    refine ⟨[], .nil, ?_⟩
    rw [hsets.expressions_eq, List.flatMap_singleton, identifiers_constantExpr]
    rfl
  | arithmetic _ he hupdates =>
    refine ⟨_, ?_, by rw [hupdates.expressions_eq]⟩
    exact he.stands_second.imp fun _ _ h => h.later hupdates.gains
  | call ht harguments hcallee =>
    refine ⟨_, ?_, rfl⟩
    rw [(gains_of_readExprs harguments).2, List.length_drop] at hcallee
    exact (stands_of_readExprs harguments).imp fun _ _ h => h.later (gains_of_readMethod image ht hcallee).1
  | _ => exact ⟨[], .nil, rfl⟩

end

/-! ### Names that an item consults -/

section

variable {image : Option Overlay} {ws : List Int32} {r r' : Reading} {op : Opcode} {item : Item}

/-- A name in an expression of an item is that of a variable among the evaluated operands, and it is bound if the variable
lies outside the script. -/
theorem Says.exists_evaluated (h : Says image ws r op item r') {name : Text}
    (hname : name ∈ item.expressions.flatMap Expr.identifiers) : ∃ w ∈ op.evaluated ws, ∃ v,
      Operand.ofInt w.toInt = .variable v ∧ name = v.name ∧
        (v.storage.isLocal = false → (r'.scope.typeOf? name).isSome) := by
  obtain ⟨es, hstands, hnames⟩ := h.exists_stands
  rw [hnames] at hname
  obtain ⟨e, he, hname⟩ := List.mem_flatMap.1 hname
  obtain ⟨w, hw, s₁, s₂, hread, hgains⟩ := exists_left_of_forall₂ hstands he
  obtain ⟨v, hv, rfl, hbound⟩ := exists_variable_of_readExpr hread hname
  exact ⟨w, hw, v, hv, rfl, fun hl => hgains.isSome_typeOf? (hbound hl)⟩

/-- A variable among the evaluated operands is named, unless its word is an address. -/
theorem Says.mem_identifiers (h : Says image ws r op item r') {w : Int32} (hw : w ∈ op.evaluated ws) {v : Variable}
    (hv : Operand.ofInt w.toInt = .variable v) (hp : isPointer image r'.scope w = false) :
    v.name ∈ item.expressions.flatMap Expr.identifiers := by
  obtain ⟨es, hstands, hnames⟩ := h.exists_stands
  obtain ⟨e, he, s₁, s₂, hread, hgains⟩ := exists_right_of_forall₂ hstands hw
  obtain rfl := eq_identifier_of_readExpr hread hv (hgains.isPointer_eq_false hp)
  rw [hnames]
  exact List.mem_flatMap.2 ⟨_, he, List.mem_singleton_self _⟩

/-- What an item sets is the variable that the first operand stands for. -/
theorem Says.set?_eq_iff (h : Says image ws r op item r') (v : Variable) :
    item.set? = some v.name ↔ op.isSet = true ∧ Targets ws v := by
  cases h with
  | set hop hv' _ hsets =>
    have hset : op.isSet = true := by rcases hop with rfl | rfl <;> rfl
    rw [hsets.set?_eq, hv'.name_eq_iff, and_iff_right hset]
  | setConst hv' _ hsets =>
    rw [hsets.set?_eq, hv'.name_eq_iff]
    exact (and_iff_right rfl).symm
  | arithmetic _ _ hupdates =>
    rw [hupdates.set?_eq]
    exact ⟨nofun, fun h => nomatch h.1⟩
  | _ => exact ⟨nofun, fun h => nomatch h.1⟩

/-- What an item writes is the variable that the first operand stands for. -/
theorem Says.written?_eq_iff (h : Says image ws r op item r') (v : Variable) :
    item.written? = some v.name ↔ op.writes = true ∧ Targets ws v := by
  cases h with
  | set hop hv' _ hsets =>
    have hwrites : op.writes = true := by rcases hop with rfl | rfl <;> rfl
    rw [hsets.written?_eq, hv'.name_eq_iff, and_iff_right hwrites]
  | setConst hv' _ hsets =>
    rw [hsets.written?_eq, hv'.name_eq_iff]
    exact (and_iff_right rfl).symm
  | arithmetic hv' _ hupdates =>
    rw [hupdates.written?_eq, hv'.name_eq_iff]
    exact (and_iff_right rfl).symm
  | _ => exact ⟨nofun, fun h => nomatch h.1⟩

private theorem Resolves.consulted?_eq_iff {target : Int32} {s : Scope} {callee : Callee} (h : Resolves target s callee)
    (ht : ws[0]? = some target) {arguments : List Expr} {kind : CallKind} (v : Variable) :
    (Stmt.call callee arguments kind).consulted? = some v.name ↔ Targets ws v := by
  cases h with
  | «variable» hv' => exact Targets.name_eq_iff ⟨target, ht, hv'⟩
  | address haddress _ =>
    refine ⟨nofun, ?_⟩
    rintro ⟨a, ha, hv⟩
    rw [ht, Option.some.injEq] at ha
    subst ha
    exact absurd hv (haddress v)

/-- Besides those in its expressions, an item reads the variable that the first operand stands for if a value is combined
with this or if it is called. -/
theorem Says.consulted?_eq_iff (h : Says image ws r op item r') (v : Variable) :
    item.consulted? = some v.name ↔ (op.isArithmetic || op.isCall) = true ∧ Targets ws v := by
  cases hcall : op.isCall with
  | true =>
    obtain ⟨callee, arguments, kind, target, rfl, ht, hresolves⟩ := h.exists_call hcall
    rw [Bool.or_true, and_iff_right rfl]
    exact hresolves.consulted?_eq_iff ht v
  | false =>
    rw [Bool.or_false]
    cases h with
    | set hop _ _ hsets =>
      have harithmetic : op.isArithmetic = false := by rcases hop with rfl | rfl <;> rfl
      rw [hsets.consulted?_eq, harithmetic]
      exact ⟨nofun, fun h => nomatch h.1⟩
    | setConst _ _ hsets =>
      rw [hsets.consulted?_eq]
      exact ⟨nofun, fun h => nomatch h.1⟩
    | arithmetic hv' _ hupdates =>
      rw [hupdates.consulted?_eq, hv'.name_eq_iff]
      exact (and_iff_right rfl).symm
    | call | exec | execWait => cases hcall
    | _ => exact ⟨nofun, fun h => nomatch h.1⟩

end

end MapScript
