import MapScript.Proofs.Decoding.Acceptance
import MapScript.Proofs.Decoding.CapturedArguments
import MapScript.Proofs.Layout.Printable
import MapScript.Proofs.Typing.Runs

/-!
# Scripts of maps can be written

In what is read from words of 32 bits no number is too long, every callee is known by a name or an address, and the arms of
switches have their values. So all statements of a script that has been read have a written form (`printable_of_decode`).
The later phases keep it: captured arguments are names, and inference takes numbers away and adds none.
-/

namespace MapScript

/-! ### Numbers of words -/

theorem not_tooLong_toInt (w : Int32) : ¬TooLong w.toInt := by
  rw [tooLong_iff, Nat.not_le]
  have hword : w.toInt.natAbs ≤ 2 ^ 31 := by
    have hlow := w.le_toInt
    have hhigh := w.toInt_lt
    omega
  have hdigits : 2 ^ 31 < 10 ^ 10 := by decide
  have hlimit : 10 ^ 10 ≤ 10 ^ maxDecimalDigits := Nat.pow_le_pow_right (by decide) (by decide)
  omega

/-- No number in the expression is too long. -/
def Expr.Short (e : Expr) : Prop := ∀ n ∈ e.numbers, ¬TooLong n

theorem Expr.Short.word (w : Int32) : (int w.toInt).Short := List.forall_mem_singleton.2 (not_tooLong_toInt w)

theorem Expr.Short.comparison {lhs rhs : Expr} (hl : lhs.Short) (hr : rhs.Short) (operator : String) :
    (Expr.comparison lhs operator rhs).Short := List.forall_mem_append.2 ⟨hl, hr⟩

/-! ### Trees that are read -/

/-- Whether what an item says can be written. -/
def Item.Printable : Item → Prop
  | simple t _ => t.Printable
  | loop count => ∀ e ∈ count, e.Short
  | branch e | switch e => e.Short
  | arm operator values => ∀ fault, ¬HeaderLacks operator values fault
  | endLoop | otherwise | endBranch | endSwitch | thread _ | endThread _ => True

private theorem Stmt.printable_of_isSimple {t : Stmt} (ht : t.isSimple = true)
    (hcallee : ∀ arguments kind, t ≠ .call .unknown arguments kind) (hnumbers : ∀ n ∈ t.numbers, ¬TooLong n) :
    t.Printable := by
  refine ⟨hcallee, hnumbers, ?_⟩
  rintro value arms rfl
  cases ht

private theorem printable_declare {type : DataType} {name : Text} {value : Option Expr}
    (h : ∀ e ∈ value.toList, e.Short) : (Stmt.declare type name value).Printable :=
  Stmt.printable_of_isSimple rfl nofun (List.forall_mem_flatMap.2 h)

private theorem printable_assign {name : Text} {operator : String} {value : Expr} (h : value.Short) :
    (Stmt.assign name operator value).Printable :=
  Stmt.printable_of_isSimple rfl nofun h

private theorem printable_call {callee : Callee} {arguments : List Expr} {kind : CallKind} (hcallee : callee ≠ .unknown)
    (harguments : ∀ e ∈ arguments, e.Short) : (Stmt.call callee arguments kind).Printable := by
  refine Stmt.printable_of_isSimple rfl ?_ (List.forall_mem_flatMap.2 harguments)
  rintro _ _ ⟨⟩
  exact hcallee rfl

private theorem Stmt.printable_of_items {t : Stmt} (h : ∀ item ∈ t.items, item.Printable) : t.Printable := by
  cases t with
  | branch condition body | branchElse condition body otherwise => exact ⟨nofun, h _ (List.mem_cons_self ..), nofun⟩
  | loop count body =>
    refine ⟨nofun, List.forall_mem_flatMap.2 fun e he => ?_, nofun⟩
    exact h _ (List.mem_cons_self ..) e (Option.mem_toList.1 he)
  | switch value arms =>
    refine ⟨nofun, h _ (List.mem_cons_self ..), ?_⟩
    rintro _ _ ⟨⟩ a ha
    exact h _ (List.mem_cons_of_mem _ (List.mem_append_left _ (Arm.items_subset ha).1))
  | thread child body => exact ⟨nofun, nofun, nofun⟩
  | _ => exact h _ (List.mem_singleton_self _)

section

variable {image : Option Overlay} {s s' : Scope}

private theorem Operand.eq_of_literal {value n : Int} (h : ofInt value = .literal n) : n = value := by
  unfold ofInt at h
  split at h
  · exact (Operand.literal.inj h).symm
  split at h
  · cases h
  split at h
  · cases h
  · exact (Operand.literal.inj h).symm

private theorem short_of_readExpr {w : Int32} {e : Expr} (h : readExpr image w s = .ok (e, s')) : e.Short := by
  unfold readExpr at h
  split at h
  · cases h
    exact nofun
  split at h
  · rename_i value hliteral
    cases h
    rw [Operand.eq_of_literal hliteral]
    exact .word w
  · cases h
    exact nofun
  · split at h
    · cases h
      exact nofun
    · obtain ⟨_, -, h⟩ := bind_eq_ok_iff.1 h
      cases h
      exact nofun

private theorem ReadsAt.short {ws : List Int32} {position : Nat} {e : Expr} (h : ReadsAt image ws s position e s') :
    e.Short := by
  obtain ⟨_, -, h⟩ := h
  exact short_of_readExpr h

private theorem short_of_readExprs {ws : List Int32} {es : List Expr} (h : readExprs image ws s = .ok (es, s')) :
    ∀ e ∈ es, e.Short := by
  induction ws generalizing s es with
  | nil =>
    cases h
    exact nofun
  | cons w rest ih =>
    obtain ⟨⟨e, s₁⟩, he, h⟩ := bind_eq_ok_iff.1 h
    obtain ⟨⟨es', s₂⟩, hes, h⟩ := bind_eq_ok_iff.1 h
    cases h
    exact List.forall_mem_cons.2 ⟨short_of_readExpr he, ih hes⟩

private theorem short_constantExpr (w : Int32) (s : Scope) : (constantExpr w s).Short := by
  unfold constantExpr
  split
  · exact nofun
  · exact .word w

private theorem ne_unknown_of_readMethod {target : Int32} {arity : Nat} {c : Callee}
    (h : readMethod target arity s = .ok (c, s')) : c ≠ .unknown := by
  unfold readMethod at h
  split at h
  · cases h
    nofun
  · simp only at h
    split at h
    · cases h
      nofun
    · obtain ⟨_, -, h⟩ := bind_eq_ok_iff.1 h
      cases h
      nofun

private theorem ne_unknown_of_readScript {target : Int32} {c : Callee}
    (h : (readScript image target s).result = .ok (c, s')) : c ≠ .unknown := by
  unfold readScript at h
  split at h
  · cases h
    nofun
  · simp only at h
    split at h
    · cases h
      nofun
    · obtain ⟨_, -, h⟩ := Logged.result_bind_eq_ok_iff.1 h
      obtain ⟨_, -, h⟩ := Logged.result_bind_eq_ok_iff.1 h
      cases h
      nofun

private theorem Reading.Sets.printable {r r' : Reading} {v : Variable} {value : Expr} {item : Item}
    (h : r.Sets v value item r') (hvalue : value.Short) : item.Printable := by
  cases h with
  | declare => exact printable_declare (List.forall_mem_singleton.2 hvalue)
  | again | store => exact printable_assign hvalue

private theorem Reading.Updates.printable {r r' : Reading} {v : Variable} {operator : String} {value : Expr} {item : Item}
    (h : r.Updates v operator value item r') (hvalue : value.Short) : item.Printable := by
  cases h with
  | word | store => exact printable_assign hvalue

private theorem not_headerLacks {operator : String} {values : List Expr} {fault : PrintFault}
    (hbounds : operator = "range" → values.length = 2)
    (hvalue : operator ≠ "range" → operator ≠ "default" → values ≠ []) (hvalues : ∀ e ∈ values, e.Short) :
    ¬HeaderLacks operator values fault := by
  rintro (⟨hrange, hne⟩ | ⟨hrange, hdefault, hnil⟩ | ⟨hn, hlong⟩)
  · exact hne (hbounds hrange)
  · exact hvalue hrange hdefault hnil
  · obtain ⟨e, he, hn⟩ := exists_of_mem_headerNumbers hn
    exact hvalues e he _ hn hlong

private theorem Says.printable {ws : List Int32} {op : Opcode} {r r' : Reading} {item : Item}
    (h : Says image ws r op item r') : item.Printable := by
  cases h with
  | label | goto => exact Stmt.printable_of_isSimple rfl nofun (Expr.Short.word _)
  | endlessLoop => exact nofun
  | loop _ hcount => exact fun e he => Option.mem_some.1 he ▸ hcount.short
  | wait hamount | waitSeconds hamount => exact Stmt.printable_of_isSimple rfl nofun hamount.short
  | branch hl hr => exact hl.short.comparison hr.short _
  | branchMask hl _ | branchNotMask hl _ => exact hl.short.comparison (.word _) _
  | switch hvalue => exact hvalue.short
  | switchConst _ => exact .word _
  | arm hvalue =>
    rename_i test _ _
    have hrange : test.symbol ≠ "range" := by cases test <;> decide
    exact fun _ => not_headerLacks (fun h => absurd h hrange) nofun (List.forall_mem_singleton.2 hvalue.short)
  | armDefault => exact fun _ => not_headerLacks nofun nofun nofun
  | armRange hlow hhigh =>
    exact fun _ => not_headerLacks (fun _ => rfl) nofun
      (List.forall_mem_cons.2 ⟨hlow.short, List.forall_mem_singleton.2 hhigh.short⟩)
  | set _ _ hvalue hsets => exact hsets.printable hvalue.short
  | setConst _ _ hsets => exact hsets.printable (short_constantExpr _ _)
  | arithmetic _ hvalue hupdates => exact hupdates.printable hvalue.short
  | call _ harguments hcallee => exact printable_call (ne_unknown_of_readMethod hcallee) (short_of_readExprs harguments)
  | exec _ hcallee | execWait _ hcallee => exact printable_call (ne_unknown_of_readScript hcallee) nofun
  | ret | breakLoop | breakSwitch => exact Stmt.printable_of_isSimple rfl nofun nofun
  | _ => trivial

private theorem Conveys.printable {r r' : Reading} {is : List Instruction} {items : List Item}
    (h : Conveys image r is items r') : ∀ item ∈ items, item.Printable := by
  induction h with
  | nil r => exact nofun
  | cons hitem _ ih =>
    obtain ⟨op, -, hsaid⟩ := hitem
    exact List.forall_mem_cons.2 ⟨hsaid.printable, ih⟩

/-- All statements of a tree that has been read have a written form. -/
theorem printable_of_decode {address : Int} {bytes : List UInt8} {b : Block}
    (h : (decode image address bytes s).result = .ok (b, s')) : ∀ t ∈ Block.statements b, t.Printable := by
  obtain ⟨before, r', -, hconveys, -⟩ := decode_eq_ok_iff.1 h
  exact fun t ht => t.printable_of_items fun item hitem => hconveys.printable item (Block.items_subset ht hitem)

/-! ### Later phases -/

private theorem Block.Rewrites.printable {R : Stmt → Stmt → Prop} {b b' : Block} (h : b.Rewrites R b')
    (hR : ∀ t u, R t u → t.Printable → u.Printable) (hb : ∀ t ∈ Block.statements b, t.Printable) :
    ∀ t ∈ Block.statements b', t.Printable := by
  intro u hu
  obtain ⟨t, ht, hrel, -⟩ := h.exists_of_mem hu
  exact u.printable_head.1 (hR _ _ hrel (t.printable_head.2 (hb t ht)))

private theorem Stmt.GetsCaptures.printable {o : Options} {t u : Stmt} (h : t.GetsCaptures o s u) (ht : t.Printable) :
    u.Printable := by
  cases h with
  | other => exact ht
  | @script callee arguments kind name parameters hl hlength harguments =>
    have hcallee : callee ≠ .unknown := by
      rintro rfl
      exact ht.callee [] kind rfl
    refine printable_call hcallee fun e he => ?_
    obtain ⟨i, hi, rfl⟩ := List.mem_iff_getElem.1 he
    have hcaptured := harguments i (hlength ▸ hi)
    rw [List.getElem?_eq_getElem hi, Option.some.injEq] at hcaptured
    rw [hcaptured]
    exact nofun

theorem printable_of_passCaptures {o : Options} {b b' : Block} (h : Block.passCaptures o s b = .ok b')
    (hb : ∀ t ∈ Block.statements b, t.Printable) : ∀ t ∈ Block.statements b', t.Printable := by
  refine (passCaptures_rewrites h).printable (fun t u hcaptures ht => ?_) hb
  exact u.printable_head.1 ((getsCaptures_of_passCaptures hcaptures).printable (t.printable_head.2 ht))

private theorem Expr.Short.asBool {e : Expr} (h : e.Short) : e.asBool.Short := by
  cases e with
  | int value => exact nofun
  | _ => exact h

private theorem short_coerceArguments {es : List Expr} (h : ∀ e ∈ es, e.Short) (ps : List DataType) :
    ∀ e ∈ Typing.coerceArguments ps es, e.Short := by
  rw [Typing.coerceArguments_eq_mapIdx]
  intro e he
  obtain ⟨i, hi, rfl⟩ := List.mem_mapIdx.1 he
  have hshort := h _ (List.getElem_mem hi)
  split
  · exact hshort.asBool
  · exact hshort

private theorem printable_of_examine {t t' : Stmt} {found : List Typing.Candidate}
    (h : Typing.examine s t = .ok (t', found)) (ht : t.Printable) : t'.Printable := by
  cases t with
  | declare type name value =>
    rcases Typing.examineDeclaration_cases h with ⟨-, rfl, -⟩ | ⟨-, -, -, rfl⟩
    · exact ht
    · have hvalue : ∀ e ∈ value.toList, e.Short := List.forall_mem_flatMap.1 ht.numbers
      refine printable_declare ?_
      split
      · rw [Option.toList_map, List.forall_mem_map]
        exact fun e he => (hvalue e he).asBool
      · exact hvalue
  | assign name operator value =>
    rw [Typing.examine, Except.ok.injEq] at h
    have hvalue : value.Short := ht.numbers
    rcases Typing.examineAssignment_cases s name operator value with ⟨-, he⟩ | ⟨-, value', rfl | rfl, he⟩ <;>
      rw [he] at h <;> cases h
    · exact ht
    · exact ht
    · exact printable_assign hvalue.asBool
  | call callee arguments kind =>
    rw [Typing.examine, Except.ok.injEq, Typing.examineCall] at h
    split at h
    · cases h
      have hcallee : callee ≠ .unknown := by
        rintro rfl
        exact ht.callee arguments kind rfl
      exact printable_call hcallee (short_coerceArguments (List.forall_mem_flatMap.1 ht.numbers) _)
    · cases h
      exact ht
  | _ =>
    cases h
    exact ht

theorem printable_of_infer {o : Options} {n : Nat} {b b' : Block}
    (h : (Typing.infer o b s).result = .ok (n, b', s')) (hb : ∀ t ∈ Block.statements b, t.Printable) :
    ∀ t ∈ Block.statements b', t.Printable := by
  have hkeeps := Typing.infer_keeps (R := fun t u => t.Printable → u.Printable) (fun _ _ _ h₁ h₂ ht => h₂ (h₁ ht))
    (fun {s t t' found} he ht => t'.printable_head.2 (printable_of_examine he (t.printable_head.1 ht))) h
  exact hkeeps.printable (fun _ _ h => h) hb

end

end MapScript
