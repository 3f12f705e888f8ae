import MapScript.Proofs.Typing.Termination

/-!
# Soundness of type inference

Let every name have a type. A scope admits these types if each of its bindings is the wildcard or the type of its name,
and a statement is consistent with them if what it says about variables is true of them. Then all that is proposed, merged
and committed are the types of the names, so that nothing disagrees: with enough passes inference has a result, and this
is admitted and consistent again (`infer_sound`).
-/

namespace MapScript

/-- Every binding is the wildcard or the type of its name, and what addresses are bound to is bound. -/
structure Scope.Admits (s : Scope) (t : Text → DataType) : Prop where
  bindings : ∀ layer ∈ s.layers, ∀ {name type}, layer.names.get? name = some type → type = .any ∨ type = t name
  addresses : ∀ {address name}, s.nameAt? address = some name → (s.typeOf? name).isSome

/-- The type of an expression when names have these types. -/
def Expr.typeBy (t : Text → DataType) (s : Scope) : Expr → DataType
  | identifier name => t name
  | int _ => .int
  | bool _ => .bool
  | float _ => .float
  | pointer address => ((s.nameAt? address).map t).getD .int
  | comparison .. => .bool

/-- Whether what a statement says about variables is true when names have these types. -/
def Stmt.Consistent (t : Text → DataType) (s : Scope) : Stmt → Prop
  | declare type name value => (type = .any ∨ type = t name) ∧ ∀ e ∈ value, e.typeBy t s = t name
  | assign name _ value => value.typeBy t s = t name
  | call callee arguments _ => ∀ {name kind parameters}, callee.name? s = some name →
    t name = .callable kind parameters → ∀ {p y}, (p, .identifier y) ∈ parameters.zip arguments → p = .any ∨ p = t y
  | _ => True

theorem Stmt.consistent_head {t : Text → DataType} {s : Scope} (u : Stmt) :
    u.head.Consistent t s ↔ u.Consistent t s := by
  cases u <;> rfl

/-- Whether what the statements of a tree say about variables is true when names have these types. -/
def Block.Consistent (t : Text → DataType) (s : Scope) (b : Block) : Prop := ∀ u ∈ Block.statements b, u.Consistent t s

theorem Block.consistent_cons {t : Text → DataType} {s : Scope} {u : Stmt} {rest : Block} :
    Block.Consistent t s (u :: rest) ↔
      u.Consistent t s ∧ (∀ d ∈ u.blocks, Block.Consistent t s d) ∧ Block.Consistent t s rest := by
  constructor
  · intro h
    refine ⟨h u ?_, fun d hd v hv => h v ?_, fun v hv => h v ?_⟩ <;> rw [Block.mem_statements_cons]
    · exact .inl rfl
    · exact .inr (.inl ⟨d, hd, hv⟩)
    · exact .inr (.inr hv)
  · rintro ⟨hu, hinside, hrest⟩ v hv
    rcases Block.mem_statements_cons.1 hv with rfl | ⟨d, hd, hv⟩ | hv
    · exact hu
    · exact hinside d hd v hv
    · exact hrest v hv

theorem Block.Consistent.inside {t : Text → DataType} {s : Scope} {b d : Block} {u : Stmt} (h : b.Consistent t s)
    (hu : u ∈ b) (hd : d ∈ u.blocks) : d.Consistent t s :=
  fun _ hv => h _ (Block.mem_statements_trans (Block.mem_statements_of_mem hu) hd hv)

namespace Scope.Admits

variable {s s' : Scope} {t : Text → DataType} {name : Text}

theorem of_entries (hnames : ∀ layer ∈ s.layers, ∀ e ∈ layer.names.entries, e.2 = .any ∨ e.2 = t e.1)
    (haddresses : ∀ layer ∈ s.layers, ∀ e ∈ layer.addresses.entries, (s.typeOf? e.2).isSome) : s.Admits t where
  bindings layer hlayer _ _ h := hnames layer hlayer _ (Table.mem_entries_of_get? h)
  addresses h := by
    obtain ⟨layer, hlayer, h⟩ := List.exists_of_findSome?_eq_some h
    exact haddresses layer hlayer _ (Table.mem_entries_of_get? h)

theorem typeOf? (h : s.Admits t) {type : DataType} (hn : s.typeOf? name = some type) : type = .any ∨ type = t name := by
  obtain ⟨layer, hlayer, htype⟩ := List.exists_of_findSome?_eq_some hn
  exact h.bindings layer hlayer htype

theorem known (h : s.Admits t) (name : Text) : s.known name = .any ∨ s.known name = t name := by
  rw [Scope.known]
  cases hn : s.currentType? name with
  | none => exact .inl rfl
  | some type => exact h.typeOf? (typeOf?_of_currentType? hn)

theorem known_eq (h : s.Admits t) (hn : ¬(s.known name).isWildcard = true) : s.known name = t name :=
  (h.known name).resolve_left fun he => hn (DataType.isWildcard_iff.2 he)

/-- Names may get their types. -/
theorem bindName (h : s.Admits t) (hb : s.bindName name (t name) = .ok s') : s'.Admits t := by
  refine ⟨?_, fun {address name'} hn => ?_⟩
  · obtain ⟨_ | ⟨layer, outer⟩⟩ := s
    · cases hb
    · cases hb
      intro l hl name' type htype
      rcases List.mem_cons.1 hl with rfl | hl
      · rw [Table.get?_insert] at htype
        split at htype
        · rename_i he
          cases htype
          exact .inr (he ▸ rfl)
        · exact h.bindings layer (List.mem_cons_self ..) htype
      · exact h.bindings l (List.mem_cons_of_mem _ hl) htype
  · rw [nameAt?_bindName hb] at hn
    rw [typeOf?_bindName hb]
    split
    · rfl
    · exact h.addresses hn

end Scope.Admits

namespace Typing

/-- A scope on the way from another one, which admits the types of names. -/
structure Sound (t : Text → DataType) (s₀ s : Scope) : Prop where
  depth_pos : 0 < s.depth
  admits : s.Admits t
  nameAt?_eq : ∀ address, s.nameAt? address = s₀.nameAt? address

variable {t : Text → DataType} {s₀ s s' : Scope} {F : Failure → Prop}

theorem Sound.bindName (h : Sound t s₀ s) {name : Text} (hb : s.bindName name (t name) = .ok s') : Sound t s₀ s' := by
  refine ⟨?_, h.admits.bindName hb, fun address => ?_⟩
  · rw [Scope.depth_bindName hb]
    exact h.depth_pos
  · rw [Scope.nameAt?_bindName hb, h.nameAt?_eq]

/-- The type that an expression has in the scope, if it is known. -/
theorem Sound.type (h : Sound t s₀ s) (e : Expr) : e.type s = .any ∨ e.type s = e.typeBy t s₀ := by
  have hname : ∀ name, (s.typeOf? name).getD .any = .any ∨ (s.typeOf? name).getD .any = t name := by
    intro name
    cases hn : s.typeOf? name with
    | none => exact .inl rfl
    | some type => exact h.admits.typeOf? hn
  cases e with
  | identifier name => exact hname name
  | pointer address =>
    rw [Expr.type, Expr.typeBy, ← h.nameAt?_eq]
    cases hn : s.nameAt? address with
    | none => exact .inr rfl
    | some name =>
      obtain ⟨type, htype⟩ := Option.isSome_iff_exists.1 (h.admits.addresses hn)
      have hname := hname name
      rw [htype] at hname
      rw [Option.bind_some, htype]
      exact hname
  | _ => exact .inr rfl

/-! ### Rules of statements -/

/-- A candidate proposes the type of its name, or none. -/
def Candidate.Fits (t : Text → DataType) (c : Candidate) : Prop := c.type = .any ∨ c.type = t c.name

private theorem Candidate.Fits.type_eq {c : Candidate} (h : c.Fits t) (hc : ¬c.type.isWildcard = true) :
    c.type = t c.name :=
  h.resolve_left fun he => hc (DataType.isWildcard_iff.2 he)

/-- What a rule makes of a statement is consistent, and what it proposes fits. -/
private def RuleSound (t : Text → DataType) (s₀ : Scope) (r : Stmt × List Candidate) : Prop :=
  r.1.Consistent t s₀ ∧ ∀ c ∈ r.2, c.Fits t

private theorem typeBy_asBool {e : Expr} (h : e.typeBy t s₀ = .bool) : e.asBool.typeBy t s₀ = .bool := by
  cases e with
  | int value => cases h
  | _ => exact h

private theorem examineDeclaration_sound (h : Sound t s₀ s) {type : DataType} {name : Text} {value : Option Expr}
    (hd : (Stmt.declare type name value).Consistent t s₀) :
    Ends (RuleSound t s₀) F (examineDeclaration s type name value) := by
  obtain ⟨htype, hvalue⟩ := id hd
  unfold examineDeclaration
  show Ends _ _ (if (s.known name).isWildcard then _ else if type.isWildcard ∨ type = s.known name then _ else _)
  split
  · refine .ok ⟨hd, fun c hc => ?_⟩
    rw [List.mem_singleton.1 hc]
    split
    · cases value with
      | none => exact .inl rfl
      | some e => exact (h.type e).imp_right fun he => he.trans (hvalue e rfl)
    · rename_i hconcrete
      exact .inr (htype.resolve_left fun he => hconcrete (DataType.isWildcard_iff.2 he))
  · rename_i hknown
    have hknown : s.known name = t name := h.admits.known_eq hknown
    have hagrees : type.isWildcard ∨ type = s.known name := by
      rw [hknown]
      exact htype.imp_left DataType.isWildcard_iff.2
    rw [if_pos hagrees]
    refine .ok ⟨⟨.inr hknown, fun e he => ?_⟩, nofun⟩
    -- an integer is no value of a truth value, so that no value has changed its type
    split at he
    · rename_i hbool
      obtain ⟨e, he', rfl⟩ := Option.map_eq_some_iff.1 he
      have hbool : t name = .bool := hknown ▸ DataType.isBool_iff.1 hbool
      rw [hbool]
      exact typeBy_asBool (hbool ▸ hvalue e he')
    · exact hvalue e he

private theorem examineAssignment_sound (h : Sound t s₀ s) {name : Text} {operator : String} {value : Expr}
    (ha : (Stmt.assign name operator value).Consistent t s₀) :
    RuleSound t s₀ (examineAssignment s name operator value) := by
  have hvalue : value.typeBy t s₀ = t name := ha
  unfold examineAssignment
  split
  · refine ⟨ha, fun c hc => ?_⟩
    rw [List.mem_singleton.1 hc]
    exact (h.type value).imp_right fun he => he.trans hvalue
  · rename_i hn
    refine ⟨?_, List.forall_mem_nil _⟩
    have hbool : t name = .bool := ((h.admits.typeOf? hn).resolve_left (by decide)).symm
    split
    · show value.asBool.typeBy t s₀ = t name
      rw [hbool]
      exact typeBy_asBool (hbool ▸ hvalue)
    · exact ha
  · exact ⟨ha, List.forall_mem_nil _⟩

private theorem mem_zip_of_coerceArguments {ps qs : List DataType} {es : List Expr} {p : DataType} {y : Text}
    (h : (p, .identifier y) ∈ qs.zip (coerceArguments ps es)) : (p, .identifier y) ∈ qs.zip es := by
  induction es generalizing ps qs with
  | nil => cases ps <;> exact h
  | cons e es ih =>
    cases ps with
    | nil => exact h
    | cons p' ps =>
      cases qs with
      | nil => exact h
      | cons q qs =>
        rw [coerceArguments, List.zip_cons_cons, List.mem_cons] at h
        rw [List.zip_cons_cons, List.mem_cons]
        refine h.imp (fun he => ?_) ih
        obtain ⟨rfl, he⟩ := Prod.mk.inj he
        split at he
        · cases e <;> cases he
          rfl
        · rw [he]

private theorem examineCall_sound (h : Sound t s₀ s) {callee : Callee} {arguments : List Expr} {kind : CallKind}
    (hc : (Stmt.call callee arguments kind).Consistent t s₀) : RuleSound t s₀ (examineCall s callee arguments kind) := by
  unfold examineCall
  split
  · rename_i name callableKind parameters hl
    obtain ⟨name', hn, hl⟩ := Option.bind_eq_some_iff.1 hl
    obtain ⟨type, htype, hl⟩ := Option.map_eq_some_iff.1 hl
    cases hl
    have hsignature : t name = .callable callableKind parameters :=
      ((h.admits.typeOf? htype).resolve_left DataType.noConfusion).symm
    refine ⟨fun hn' ht' _ _ hz => hc hn' ht' (mem_zip_of_coerceArguments hz), fun c hfound => ?_⟩
    obtain ⟨⟨p, e⟩, hz, huse⟩ := List.mem_filterMap.1 hfound
    cases e with
    | identifier y =>
      simp only [useOf?] at huse
      split at huse
      · cases huse
        exact hc (Callee.name?_congr h.nameAt?_eq callee ▸ hn) hsignature hz
      · cases huse
    | _ => cases huse
  · exact ⟨hc, List.forall_mem_nil _⟩

theorem examine_sound (h : Sound t s₀ s) {u : Stmt} (hu : u.Consistent t s₀) :
    Ends (fun r => r.1.Consistent t s₀ ∧ ∀ c ∈ r.2, c.Fits t) F (examine s u) := by
  cases u with
  | declare type name value => exact examineDeclaration_sound h hu
  | assign name operator value => exact .ok (examineAssignment_sound h hu)
  | call callee arguments kind => exact .ok (examineCall_sound h hu)
  | _ => exact .ok ⟨hu, nofun⟩

/-! ### Merging and committing -/

/-- The candidates that have been chosen are of the types of their names. -/
private def ChosenSound (t : Text → DataType) (chosen : Table Text Candidate) : Prop :=
  ∀ {name r}, chosen.get? name = some r → r.type = t name

private theorem choose_sound {chosen : Table Text Candidate} {c : Candidate} (hc : c.Fits t)
    (hchosen : ChosenSound t chosen) : Ends (ChosenSound t) F (choose chosen c) := by
  unfold choose
  split
  · exact .ok hchosen
  · rename_i hconcrete
    have htype := hc.type_eq hconcrete
    split
    · refine .ok fun {name r} hr => ?_
      rw [Table.get?_insert] at hr
      split at hr
      · rename_i he
        cases hr
        rw [htype, he]
      · exact hchosen hr
    · rename_i existing he
      -- both are of the type of the name
      rw [hchosen he, htype, DataType.unify_self]
      exact .ok hchosen

private theorem resolve_sound {cs : List Candidate} (hcs : ∀ c ∈ cs, c.Fits t) :
    Ends (fun resolved => ∀ {name type}, resolved.get? name = some type → type = t name) F (resolve cs) := by
  have hempty : ChosenSound t .empty := nofun
  have hfold : Ends (ChosenSound t) F (cs.foldlM choose .empty) :=
    .foldlM hempty fun c hc _ hchosen => choose_sound (hcs c hc) hchosen
  refine hfold.bind fun chosen _ hchosen => .ok fun {name type} hn => ?_
  rw [Table.get?_mapValues] at hn
  obtain ⟨r, hr, rfl⟩ := Option.map_eq_some_iff.1 hn
  exact hchosen hr

private theorem commitEach_sound {policy : CommitPolicy} {resolved : Table Text DataType} {cs : List Candidate}
    (hresolved : ∀ {name type}, resolved.get? name = some type → type = t name) (hcs : ∀ c ∈ cs, c.Fits t)
    (h : Sound t s₀ s) : Ends (fun r => Sound t s₀ r.2) F (commitEach policy resolved cs s) := by
  induction cs generalizing s with
  | nil => exact .ok h
  | cons c rest ih =>
    have ih := fun {s} => ih (s := s) fun c hc => hcs c (List.mem_cons_of_mem _ hc)
    simp only [commitEach.eq_def policy resolved (c :: rest) s]
    split
    · split
      · exact .ok h
      · exact ih h
    · rename_i hconcrete
      have htype : (resolved.get? c.name).getD c.type = t c.name := by
        cases hn : resolved.get? c.name with
        | none => exact (hcs c (List.mem_cons_self ..)).type_eq hconcrete
        | some type => exact hresolved hn
      rw [htype]
      show Ends _ _ (if (s.known c.name).isWildcard then _ else if ((s.known c.name).unify _).isNone then _ else _)
      split
      · rename_i hknown
        obtain ⟨s₁, hb⟩ := Scope.exists_bindName h.depth_pos c.name (t c.name)
        rw [refineName_of_known (DataType.isWildcard_iff.1 hknown), hb]
        exact (ih (h.bindName hb)).bind fun _ _ hs => .ok hs
      · rename_i hknown
        rw [h.admits.known_eq hknown, DataType.unify_self]
        exact ih h

theorem commit_sound {policy : CommitPolicy} {cs : List Candidate} (hcs : ∀ c ∈ cs, c.Fits t) (h : Sound t s₀ s) :
    Ends (fun r => Sound t s₀ r.2) F (commit policy cs s) :=
  (resolve_sound hcs).bind fun _ _ hresolved => commitEach_sound hresolved hcs h

/-! ### Runs -/

/-- A consistent tree with a scope on the way. -/
private def ResultSound (t : Text → DataType) (s₀ : Scope) (r : Block × Scope) : Prop :=
  r.1.Consistent t s₀ ∧ Sound t s₀ r.2

section

variable {inner : Block → Scope → Logged Failure (Block × Scope)} {b : Block}

private theorem settleBlocks_sound {bs : List Block}
    (hi : ∀ d ∈ bs, ∀ {s}, Sound t s₀ s → Ends (ResultSound t s₀) F (inner d s).result) (h : Sound t s₀ s) :
    Ends (fun r => (∀ d ∈ r.1, Block.Consistent t s₀ d) ∧ Sound t s₀ r.2) F (settleBlocks inner bs s).result := by
  induction bs generalizing s with
  | nil => exact .ok ⟨nofun, h⟩
  | cons d rest ih =>
    rw [result_settleBlocks_cons]
    refine (hi d (List.mem_cons_self ..) h).bind fun ⟨d', s₁⟩ _ ⟨hd, h₁⟩ => ?_
    refine (ih (fun d hd => hi d (List.mem_cons_of_mem _ hd)) h₁).bind fun ⟨rest', s₂⟩ _ ⟨hrest, h₂⟩ => ?_
    exact .ok ⟨List.forall_mem_cons.2 ⟨hd, hrest⟩, h₂⟩

private theorem pass_sound (hb : b.Consistent t s₀)
    (hi : ∀ u ∈ b, ∀ d ∈ u.blocks, ∀ {s}, Sound t s₀ s → Ends (ResultSound t s₀) F (inner d s).result)
    (h : Sound t s₀ s) :
    Ends (fun r => r.1.Consistent t s₀ ∧ Sound t s₀ r.2.1 ∧ ∀ c ∈ r.2.2, c.Fits t) F (pass inner b s).result := by
  induction b with
  | nil => exact .ok ⟨hb, h, nofun⟩
  | cons u rest ih =>
    obtain ⟨hu, -, hrest⟩ := Block.consistent_cons.1 hb
    rw [result_pass_cons]
    have hbehind := ih hrest fun u hu => hi u (List.mem_cons_of_mem _ hu)
    refine hbehind.bind fun ⟨rest', s₁, found⟩ _ ⟨hrest, h₁, hfound⟩ => ?_
    refine (examine_sound h₁ hu).bind fun ⟨u₁, proposed⟩ hexamine ⟨hu₁, hproposed⟩ => ?_
    have hblocks := (alike_of_examine hexamine).1
    refine (settleBlocks_sound (fun d hd => hi u (List.mem_cons_self ..) d (hblocks ▸ hd)) h₁).bind
      fun ⟨bs, s₂⟩ hbs ⟨hinside, h₂⟩ => .ok ⟨?_, h₂, ?_⟩
    · have hlength := length_of_settleBlocks hbs
      rw [Block.consistent_cons, ← Stmt.consistent_head, Stmt.head_withBlocks hlength, Stmt.consistent_head,
        Stmt.blocks_withBlocks hlength]
      exact ⟨hu₁, hinside, hrest⟩
    · exact List.forall_mem_append.2 ⟨hfound, hproposed⟩

end

variable {o : Options} {b : Block}

/-- What a run ends in: the limit of rounds is its only failure. -/
private def RunSound (t : Text → DataType) (s₀ : Scope) (o : Options) (x : Except Failure (Nat × Block × Scope)) : Prop :=
  Ends (fun r => ResultSound t s₀ r.2) (· = .unsettled o.passLimit) x

private theorem settle_sound {done remaining : Nat}
    (hi : ∀ d : Block, Block.depth d < Block.depth b → d.Consistent t s₀ → ∀ {s}, Sound t s₀ s →
      RunSound t s₀ o (infer o d s).result)
    (hb : b.Consistent t s₀) (h : Sound t s₀ s) : RunSound t s₀ o (settle (nested o) o done remaining b s).result := by
  induction remaining generalizing done b s with
  | zero => exact .error rfl
  | succ remaining ih =>
    have hinside : ∀ u ∈ b, ∀ d ∈ u.blocks, ∀ {s}, Sound t s₀ s →
        Ends (ResultSound t s₀) (· = .unsettled o.passLimit) (nested o d s).result := by
      intro u hu d hd s hs
      rw [nested, Logged.result_bind]
      exact (hi d (Block.depth_lt_of_mem hu hd) (hb.inside hu hd) hs).bind fun _ _ hr => .ok hr
    have hround : RunSound t s₀ o (round (nested o) o.commitPolicy b s).result := by
      rw [result_round]
      refine (pass_sound hb hinside h).bind ?_
      rintro ⟨b₁, s₁, found⟩ - ⟨hb₁, h₁, hfound⟩
      exact (commit_sound hfound h₁).bind fun _ _ h₂ => .ok ⟨hb₁, h₂⟩
    rw [result_settle_succ]
    refine hround.bind ?_
    rintro ⟨k, b₁, s₁⟩ hr ⟨hb₁, h₁⟩
    have hdepth := (rewrites_of_round hr).depth_eq fun _ _ => Stmt.Alike.depth_eq
    simp only
    split
    · exact .ok ⟨hb₁, h₁⟩
    · exact ih (fun d hd => hi d (hdepth ▸ hd)) hb₁ h₁

private theorem run_sound (hb : b.Consistent t s₀) (h : Sound t s₀ s) : RunSound t s₀ o (infer o b s).result := by
  induction hd : Block.depth b using Nat.strongRecOn generalizing b s with
  | ind depth ih =>
    subst hd
    rw [result_infer]
    exact settle_sound (fun d hd hb _ hs => ih _ hd hb hs rfl) hb h

/-- If a scope and a tree agree with the types of names, inference with enough passes has a result, and the types in that
agree with them too. -/
theorem infer_sound (hs : 0 < s.depth) (hadmits : s.Admits t) (hb : b.Consistent t s)
    (hlimit : ((Block.names b).toFinset.card : Int) < o.passLimit) :
    ∃ n b' s', (infer o b s).result = .ok (n, b', s') ∧ s'.Admits t ∧
      ∀ {type name value}, .declare type name value ∈ Block.statements b' → type = .any ∨ type = t name := by
  have hfails : FailsByMismatch (infer o b s).result := by
    refine infer_failsByMismatch hs fun c hc => ?_
    have := Block.card_unresolved_le hc s
    omega
  have hrun : RunSound t s o (infer o b s).result := run_sound hb ⟨hs, hadmits, fun _ => rfl⟩
  cases hr : (infer o b s).result with
  | error e =>
    rw [hr] at hrun
    obtain ⟨m, rfl⟩ := hfails e hr
    exact absurd hrun.of_error.symm (Failure.unsettled_ne_mismatch _ m)
  | ok r =>
    obtain ⟨n, b', s'⟩ := r
    rw [hr] at hrun
    obtain ⟨hb', hs'⟩ := hrun.of_ok
    exact ⟨n, b', s', rfl, hs'.admits, fun hd => (hb' _ hd).1⟩

/-! ### A variable that holds a method -/

/-- Variables of unknown type, with a method around them that takes a truth value. -/
def handlerScope : Scope :=
  ⟨[⟨.empty, .ofList [("handler", .any), ("x", .any)]⟩,
    ⟨.ofList [(16, "takes_bool")], .ofList [("takes_bool", .native [.bool])]⟩]⟩

/-- The method becomes known under another name, which is called inside a branch. -/
def handlerBlock : Block :=
  [.branch (.bool true) [.call (.named "handler") [.identifier "x"] .call, .assign "x" "=" (.bool false)],
    .declare .any "handler" (some (.pointer 16))]

def handlerType (name : Text) : DataType := if name = "x" then .bool else .native [.bool]

theorem infer_sound_handler : ∃ n b' s', (infer {} handlerBlock handlerScope).result = .ok (n, b', s') ∧
    s'.Admits handlerType ∧
    ∀ {type name value}, .declare type name value ∈ Block.statements b' → type = .any ∨ type = handlerType name := by
  refine infer_sound (by decide) (.of_entries (by decide) (by decide)) ?_ (by decide)
  refine Block.consistent_cons.2 ⟨trivial, ?_, Block.consistent_cons.2 ⟨⟨.inl rfl, ?_⟩, nofun, nofun⟩⟩
  · intro d hd
    obtain rfl := List.mem_singleton.1 hd
    refine Block.consistent_cons.2 ⟨?_, nofun, Block.consistent_cons.2 ⟨rfl, nofun, nofun⟩⟩
    intro name kind parameters hn htype p y hz
    cases hn
    cases htype
    obtain ⟨rfl, hy⟩ := Prod.mk.inj (List.mem_singleton.1 hz)
    cases hy
    exact .inr rfl
  · intro e he
    cases he
    rfl

end Typing

end MapScript
