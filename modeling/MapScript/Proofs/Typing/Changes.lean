import MapScript.Proofs.Typing.Learning

/-!
# What inference changes in a tree

Inference writes types into declarations that have none, and turns integer literals into truth values. What it changes at
some moment is justified by the scope of that moment. If a tree declares no names of outer layers, every concrete type that
is looked up on the way is looked up in the end (`lasting_of_refines`), so that all changes are justified by the resulting
scope (`infer_changes`).
-/

namespace MapScript

/-! ### Changes of statements -/

/-- An expression stays, or it is an integer literal and becomes a truth value, if that is allowed. -/
inductive Expr.Becomes (allowed : Prop) : Expr → Expr → Prop
  | same {e : Expr} : Becomes allowed e e
  | truth {n : Int} : allowed → Becomes allowed (int n) (bool (n = 1))

namespace Expr.Becomes

variable {allowed : Prop} {e e₁ e₂ : Expr}

theorem asBool (h : allowed) : e.Becomes allowed e.asBool := by
  cases e with
  | int n => exact .truth h
  | _ => exact .same

theorem trans (h : e.Becomes allowed e₁) (h₁ : e₁.Becomes allowed e₂) : e.Becomes allowed e₂ := by
  cases h with
  | same => exact h₁
  | truth hallowed =>
    -- a truth value stays
    cases h₁ with
    | same => exact .truth hallowed

theorem option_refl (v : Option Expr) : Option.Rel (Becomes allowed) v v := by
  cases v with
  | none => exact .none
  | some e => exact .some .same

theorem option_asBool (h : allowed) (v : Option Expr) : Option.Rel (Becomes allowed) v (v.map Expr.asBool) := by
  cases v with
  | none => exact .none
  | some e => exact .some (.asBool h)

theorem option_trans {v v₁ v₂ : Option Expr} (h : Option.Rel (Becomes allowed) v v₁)
    (h₁ : Option.Rel (Becomes allowed) v₁ v₂) : Option.Rel (Becomes allowed) v v₂ := by
  cases h with
  | none => exact h₁
  | some he =>
    cases h₁ with
    | some he₁ => exact .some (he.trans he₁)

end Expr.Becomes

/-- The scope knows the callee as a callable with a truth value at a position of its parameters. -/
def Callee.TakesBool (c : Callee) (s : Scope) (i : Nat) : Prop :=
  ∃ name convention parameters, c.lookup? s = some (name, .callable convention parameters) ∧
    parameters[i]? = some .bool

/-- Changes of a statement that a scope justifies: a declaration without a type has got the type of its name in the
innermost layer, and an integer literal has become a truth value where the scope says that one is meant. -/
inductive Stmt.Justified (s : Scope) : Stmt → Stmt → Prop
  | declare {type type' : DataType} {name : Text} {value value' : Option Expr} :
    type' = type ∨ type = .any ∧ s.currentType? name = some type' →
    Option.Rel (Expr.Becomes (s.currentType? name = some .bool)) value value' →
    Justified s (.declare type name value) (.declare type' name value')
  | assign {name : Text} {operator : String} {value value' : Expr} :
    value.Becomes (operator = "=" ∧ s.typeOf? name = some .bool) value' →
    Justified s (.assign name operator value) (.assign name operator value')
  | call {callee : Callee} {arguments arguments' : List Expr} {kind : CallKind} :
    arguments'.length = arguments.length →
    (∀ {i : Nat} {e e' : Expr}, arguments[i]? = some e → arguments'[i]? = some e' →
      e.Becomes (callee.TakesBool s i) e') →
    Justified s (.call callee arguments kind) (.call callee arguments' kind)
  | other {t : Stmt} : Justified s t t

namespace Stmt.Justified

variable {s : Scope} {t t₁ t₂ : Stmt}

theorem trans (h : t.Justified s t₁) (h₁ : t₁.Justified s t₂) : t.Justified s t₂ := by
  cases h with
  | other => exact h₁
  | declare htype hvalue =>
    cases h₁ with
    | other => exact .declare htype hvalue
    | declare htype₁ hvalue₁ =>
      refine .declare ?_ (Expr.Becomes.option_trans hvalue hvalue₁)
      rcases htype₁ with rfl | ⟨rfl, hcurrent⟩
      · exact htype
      · rcases htype with rfl | ⟨hany, -⟩
        · exact .inr ⟨rfl, hcurrent⟩
        · exact .inr ⟨hany, hcurrent⟩
  | assign hvalue =>
    cases h₁ with
    | other => exact .assign hvalue
    | assign hvalue₁ => exact .assign (hvalue.trans hvalue₁)
  | call hlength harguments =>
    cases h₁ with
    | other => exact .call hlength harguments
    | call hlength₁ harguments₁ =>
      refine .call (hlength₁.trans hlength) fun {i e e₂} he he₂ => ?_
      obtain ⟨hi, -⟩ := List.getElem?_eq_some_iff.1 he
      have he₁ := List.getElem?_eq_getElem (hlength ▸ hi)
      exact (harguments he he₁).trans (harguments₁ he₁ he₂)

end Stmt.Justified

/-! ### Types that last -/

/-- The tree declares no name that a layer around the innermost one binds. -/
def Block.DeclaresOwn (b : Block) (s : Scope) : Prop :=
  ∀ {type name value}, .declare type name value ∈ Block.statements b →
    ∀ layer ∈ s.layers.tail, layer.names.get? name = none

/-- Every concrete type that is looked up on the way from one scope to another is looked up in the end. -/
def Scope.Lasting (s s' : Scope) : Prop :=
  ∀ {e name type}, s.Grows e → e.Grows s' → e.typeOf? name = some type → type ≠ .any → s'.typeOf? name = some type

theorem Scope.Lasting.later {s s₁ s' : Scope} (h : s.Lasting s') (hs : s.Grows s₁) : s₁.Lasting s' :=
  fun he => h (hs.trans he)

namespace Typing

variable {s s' : Scope}

theorem lasting_of_refines {b : Block} (hown : b.DeclaresOwn s) (h : s.Refines (Block.Learnable b s) s') :
    s.Lasting s' := by
  intro e name type hs he hn ht
  by_cases hk : e.known name = .any
  · -- the type comes from an outer layer, so that the name is neither declared nor bound to the wildcard
    have hks := hs.known_of_known_eq_any hk
    rw [hs.typeOf?_eq hk] at hn
    rcases h.typeOf?_eq_or name with hlast | ⟨⟨-, ⟨type', value, hd⟩ | hany⟩, -, -⟩
    · rw [hlast, hn]
    · rw [Scope.typeOf?_of_tail (hown hd)] at hn
      rw [Scope.known, hn, Option.getD_some] at hks
      exact absurd hks ht
    · rw [hany] at hn
      exact absurd (Option.some.inj hn).symm ht
  · rw [Scope.typeOf?_of_known hk] at hn
    have hk' := he.known_eq hk
    rw [Scope.typeOf?_of_known (by rwa [hk']), hk', hn]

/-! ### Rules -/

private theorem justified_of_examineCall {e : Scope} {callee : Callee} {arguments : List Expr} {kind : CallKind}
    {t' : Stmt} {found : List Candidate} (h : examineCall e callee arguments kind = (t', found)) (hs : s.Lasting s')
    (he : s.Grows e) (he' : e.Grows s') : (Stmt.call callee arguments kind).Justified s' t'.head := by
  unfold examineCall at h
  split at h
  · rename_i name convention parameters hl
    cases h
    obtain ⟨name', hname, hl⟩ := Option.bind_eq_some_iff.1 hl
    obtain ⟨type, htype, hl⟩ := Option.map_eq_some_iff.1 hl
    cases hl
    -- the signature of the callee is a concrete type, which lasts
    have hlookup : callee.lookup? s' = some (name, .callable convention parameters) := by
      have hlast := hs he he' htype DataType.noConfusion
      rw [Callee.lookup?, Callee.name?_congr he'.nameAt?_eq, hname, Option.bind_some, hlast, Option.map_some]
    rw [coerceArguments_eq_mapIdx]
    refine .call List.length_mapIdx fun {i a a'} ha ha' => ?_
    rw [List.getElem?_mapIdx, ha, Option.map_some, Option.some.injEq] at ha'
    subst ha'
    split
    · rename_i hbool
      exact .asBool ⟨name, convention, parameters, hlookup, hbool⟩
    · exact .same
  · cases h
    exact .other

/-- What a rule changes on the way is justified in the end. -/
theorem justified_of_examine {e : Scope} {t t' : Stmt} {found : List Candidate} (h : examine e t = .ok (t', found))
    (hs : s.Lasting s') (he : s.Grows e) (he' : e.Grows s') : t.head.Justified s' t'.head := by
  cases t with
  | declare type name value =>
    rcases examineDeclaration_cases h with ⟨-, rfl, -⟩ | ⟨hk, htype, -, rfl⟩
    · exact .other
    · have hk' := he'.known_eq hk
      have hcurrent : s'.currentType? name = some (e.known name) := by
        rw [Scope.currentType?_of_known (by rwa [hk']), hk']
      refine .declare ?_ ?_
      · rcases htype with rfl | rfl
        · exact .inr ⟨rfl, hcurrent⟩
        · exact .inl rfl
      · split
        · rename_i hbool
          rw [DataType.isBool_iff.1 hbool] at hcurrent
          exact Expr.Becomes.option_asBool hcurrent value
        · exact Expr.Becomes.option_refl value
  | assign name operator value =>
    rw [examine, Except.ok.injEq] at h
    unfold examineAssignment at h
    split at h
    · cases h
      exact .other
    · rename_i hn
      cases h
      refine .assign ?_
      split
      · rename_i hoperator
        exact .asBool ⟨hoperator, hs he he' hn DataType.noConfusion⟩
      · exact .same
    · cases h
      exact .other
  | call callee arguments kind =>
    rw [examine, Except.ok.injEq] at h
    exact justified_of_examineCall h hs he he'
  | _ =>
    cases h
    exact .other

/-! ### Runs -/

section

variable {o : Options} {b b' : Block} {s₁ : Scope}

/-- Whether what the inference of a block makes of it is justified by every scope that it lasts to. -/
private def ChangesJustified (b : Block) (s : Scope) (b' : Block) (s' : Scope) : Prop :=
  s.Grows s' ∧ ∀ {last}, s.Lasting last → s'.Grows last → Block.Rewrites (Stmt.Justified last) b b'

private theorem settleBlocks_justified {bs bs' : List Block}
    (hi : ∀ d ∈ bs, ∀ {s d' s'}, (nested o d s).result = .ok (d', s') → ChangesJustified d s d' s')
    (h : (settleBlocks (nested o) bs s).result = .ok (bs', s₁)) (hs : s.Lasting s') (hs₁ : s₁.Grows s') :
    List.Forall₂ (Block.Rewrites (Stmt.Justified s')) bs bs' := by
  induction bs generalizing s bs' with
  | nil =>
    obtain ⟨rfl, -⟩ := settleBlocks_nil_eq_ok_iff.1 h
    exact .nil
  | cons d rest ih =>
    obtain ⟨d', s₂, rest', hd, hrest, rfl⟩ := settleBlocks_cons_eq_ok_iff.1 h
    have hinside := hi d (List.mem_cons_self ..) hd
    have hbehind := ih (fun d hd => hi d (List.mem_cons_of_mem _ hd)) hrest (hs.later hinside.1)
    exact .cons (hinside.2 hs ((grows_of_settleBlocks hrest).trans hs₁)) hbehind

private theorem pass_justified {found : List Candidate}
    (hi : ∀ t ∈ b, ∀ d ∈ t.blocks, ∀ {s d' s'}, (nested o d s).result = .ok (d', s') → ChangesJustified d s d' s')
    (h : (pass (nested o) b s).result = .ok (b', s₁, found)) (hs : s.Lasting s') (hs₁ : s₁.Grows s') :
    Block.Rewrites (Stmt.Justified s') b b' := by
  induction b generalizing b' s₁ found with
  | nil =>
    obtain ⟨rfl, -⟩ := pass_nil_eq_ok_iff.1 h
    exact .nil
  | cons t rest ih =>
    obtain ⟨rest', e, found, t₁, proposed, bs, hrest, ht, hbs, rfl, -⟩ := pass_cons_eq_ok_iff.1 h
    have he : s.Grows e := grows_of_pass hrest
    have he' : e.Grows s' := (grows_of_settleBlocks hbs).trans hs₁
    have hbehind := ih (fun t ht => hi t (List.mem_cons_of_mem _ ht)) hrest he'
    have hhead := justified_of_examine ht hs he he'
    have hblocks := (alike_of_examine ht).1
    have hlength := length_of_settleBlocks hbs
    have hinside := settleBlocks_justified (fun d hd => hi t (List.mem_cons_self ..) d (hblocks ▸ hd)) hbs
      (hs.later he) hs₁
    refine .cons ?_ ?_ hbehind
    · rwa [Stmt.head_withBlocks hlength]
    · rwa [Stmt.blocks_withBlocks hlength, ← hblocks]

private theorem changesJustified_of_infer {n : Nat} (h : (infer o b s).result = .ok (n, b', s')) :
    ChangesJustified b s b' s' := by
  refine infer_induction (motive := ChangesJustified) ?_ ?_ h
  · intro b b' s s' k hi hround
    refine ⟨grows_of_round hround, fun {last} hs hlast => ?_⟩
    obtain ⟨s₁, found, hpass, hcommit⟩ := round_eq_ok_iff.1 hround
    have hs₁ := (commit_refines hcommit).grows.trans hlast
    exact pass_justified (fun t ht d hd => hi d (Block.depth_lt_of_mem ht hd)) hpass hs hs₁
  · rintro b b₁ b' s s₁ s' ⟨hs, hb⟩ ⟨hs₁, hb₁⟩
    refine ⟨hs.trans hs₁, fun {last} hlasting hlast => ?_⟩
    have hfirst := hb hlasting (hs₁.trans hlast)
    have hsecond := hb₁ (hlasting.later hs) hlast
    exact hfirst.trans (fun _ _ _ => .trans) hsecond

/-- If a tree declares no names of outer layers, inference changes nothing in it but what the resulting scope justifies. -/
theorem infer_changes {n : Nat} (h : (infer o b s).result = .ok (n, b', s')) (hown : b.DeclaresOwn s) :
    Block.Rewrites (Stmt.Justified s') b b' :=
  (changesJustified_of_infer h).2 (lasting_of_refines hown (infer_refines h)) .refl

end

/-! ### Literals of every kind -/

/-- A variable of unknown type and a truth value, with methods around them that take truth values. -/
def literalScope : Scope :=
  ⟨[⟨.empty, .ofList [("x", .any), ("flag", .bool)]⟩,
    ⟨.empty, .ofList [("takes_two", .native [.int, .bool]), ("takes_bool", .native [.bool])]⟩]⟩

/-- Integer literals in a declaration, in an assignment inside a branch and in a call. -/
def literalBlock : Block :=
  [.declare .any "x" (some (.int 1)), .branch (.bool true) [.assign "flag" "=" (.int 0)],
    .call (.named "takes_two") [.int 1, .int 0] .call, .call (.named "takes_bool") [.identifier "x"] .call]

private theorem declaresOwn_literalBlock : literalBlock.DeclaresOwn literalScope := by
  intro type name value hd layer hlayer
  have hname : name = "x" := by
    simp only [literalBlock, Block.statements, Stmt.statements, List.mem_append, List.mem_cons, List.not_mem_nil,
      or_false, Stmt.declare.injEq, reduceCtorEq] at hd
    exact hd.2.1
  obtain rfl := List.mem_singleton.1 hlayer
  subst hname
  rfl

theorem infer_changes_literals : ∃ n b' s', (infer {} literalBlock literalScope).result = .ok (n, b', s') ∧
    .declare .bool "x" (some (.bool true)) ∈ Block.statements b' ∧
    .assign "flag" "=" (.bool false) ∈ Block.statements b' ∧
    .call (.named "takes_two") [.int 1, .bool false] .call ∈ Block.statements b' ∧
    Block.Rewrites (Stmt.Justified s') literalBlock b' := by
  refine ⟨_, _, _, rfl, .head _, ?_, ?_, infer_changes (o := {}) rfl declaresOwn_literalBlock⟩
  · exact .tail _ (.tail _ (.head _))
  · exact .tail _ (.tail _ (.tail _ (.head _)))

end Typing

end MapScript
