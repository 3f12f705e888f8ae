import MapScript.Proofs.Typing.Runs

/-!
# What runs learn

A run refines the scope (`infer_refines`). The names that get types are those that the block declares or that are bound
to the wildcard, and the statements of the block name them. So nothing changes in a scope but that names of the tree get
types (`infer_completes`).
-/

namespace MapScript

/-! ### Names of blocks -/

namespace Block

/-- The names that the rules may propose types for in a pass over the block, not counting the blocks inside it. -/
def ownNames (b : Block) : List Text := b.flatMap Stmt.names

/-- The names that the rules may propose types for in the block at any depth. -/
def names (b : Block) : List Text := (statements b).flatMap Stmt.names

/-- The names whose types a run over the block may learn. -/
def Learnable (b : Block) (s : Scope) (name : Text) : Prop :=
  name ∈ names b ∧ ((∃ type value, .declare type name value ∈ statements b) ∨ s.typeOf? name = some .any)

theorem names_subset {b c : Block} (h : ∀ {t}, t ∈ statements c → t ∈ statements b) : names c ⊆ names b := by
  intro name hn
  obtain ⟨t, ht, hn⟩ := List.mem_flatMap.1 hn
  exact List.mem_flatMap.2 ⟨t, h ht, hn⟩

theorem ownNames_subset (b : Block) : ownNames b ⊆ names b := by
  intro name hn
  obtain ⟨t, ht, hn⟩ := List.mem_flatMap.1 hn
  exact List.mem_flatMap.2 ⟨t, mem_statements_of_mem ht, hn⟩

theorem Learnable.mono {b c : Block} {s s₁ : Scope} {name : Text}
    (hb : ∀ {t}, t ∈ statements c → t ∈ statements b) (hs : s₁.typeOf? name = some .any → s.typeOf? name = some .any)
    (h : Learnable c s₁ name) : Learnable b s name := by
  obtain ⟨hn, ⟨type, value, hd⟩ | hn'⟩ := h
  · exact ⟨names_subset hb hn, .inl ⟨type, value, hb hd⟩⟩
  · exact ⟨names_subset hb hn, .inr (hs hn')⟩

theorem Rewrites.ownNames_eq {b b' : Block} (h : Rewrites Stmt.Alike b b') : ownNames b = ownNames b' := by
  refine Rewrites.induction (motive := fun b b' => ownNames b = ownNames b') rfl ?_ h
  intro s t rest rest' hst _ _ ih
  have hnames := hst.names_eq
  rw [Stmt.names_head, Stmt.names_head] at hnames
  rw [ownNames, ownNames, List.flatMap_cons, List.flatMap_cons, hnames]
  exact congrArg _ ih

theorem Rewrites.names_subset {b b' : Block} (h : Rewrites Stmt.Alike b b') : names b' ⊆ names b := by
  intro name hn
  obtain ⟨u, hu, hn⟩ := List.mem_flatMap.1 hn
  obtain ⟨t, ht, htu, -⟩ := h.exists_of_mem hu
  have hnames := htu.names_eq
  rw [Stmt.names_head, Stmt.names_head] at hnames
  exact List.mem_flatMap.2 ⟨t, ht, hnames ▸ hn⟩

theorem Learnable.of_rewrites {b b' : Block} {s s₁ : Scope} {name : Text} (hr : Rewrites Stmt.Alike b b')
    (hs : s₁.typeOf? name = some .any → s.typeOf? name = some .any) (h : Learnable b' s₁ name) :
    Learnable b s name := by
  refine ⟨hr.names_subset h.1, h.2.imp ?_ hs⟩
  rintro ⟨type, value, hd⟩
  obtain ⟨t, ht, htu, -⟩ := hr.exists_of_mem hd
  cases t <;> simp only [Stmt.head, Stmt.Alike, reduceCtorEq] at htu
  subst htu
  exact ⟨_, _, ht⟩

end Block

/-! ### Refinement by runs -/

namespace Typing

section

variable {inner : Block → Scope → Logged Failure (Block × Scope)} {s s' : Scope}

theorem settleBlocks_refines {bs bs' : List Block} {P : Text → Prop}
    (hi : ∀ d ∈ bs, ∀ {s d' s'}, (inner d s).result = .ok (d', s') → s.Refines (Block.Learnable d s) s')
    (hP : ∀ d ∈ bs, ∀ s₁, s.Refines P s₁ → ∀ name, Block.Learnable d s₁ name → P name)
    (h : (settleBlocks inner bs s).result = .ok (bs', s')) : s.Refines P s' := by
  -- the blocks that are left are settled in a scope on the way
  suffices ∀ s₁, s.Refines P s₁ → (settleBlocks inner bs s₁).result = .ok (bs', s') → s.Refines P s' from
    this s .refl h
  clear h
  induction bs generalizing bs' with
  | nil =>
    intro s₁ hs h
    obtain ⟨-, rfl⟩ := settleBlocks_nil_eq_ok_iff.1 h
    exact hs
  | cons d rest ih =>
    intro s₁ hs h
    obtain ⟨d', s₂, rest', hd, hrest, -⟩ := settleBlocks_cons_eq_ok_iff.1 h
    refine ih (fun d hd => hi d (List.mem_cons_of_mem _ hd)) (fun d hd => hP d (List.mem_cons_of_mem _ hd)) s₂ ?_ hrest
    have hd := hi d (List.mem_cons_self ..) hd
    exact hs.trans (hd.mono fun name _ => hP d (List.mem_cons_self ..) s₁ hs name)

/-- A pass refines the scope, and proposes types for names that it may learn. -/
theorem pass_refines {b b' : Block} {found : List Candidate}
    (hi : ∀ t ∈ b, ∀ d ∈ t.blocks, ∀ {s d' s'}, (inner d s).result = .ok (d', s') →
      s.Refines (Block.Learnable d s) s')
    (h : (pass inner b s).result = .ok (b', s', found)) :
    s.Refines (Block.Learnable b s) s' ∧ ∀ c ∈ found, c.name ∈ Block.ownNames b ∧ Block.Learnable b s c.name := by
  induction b generalizing b' s' found with
  | nil =>
    obtain ⟨-, rfl, rfl⟩ := pass_nil_eq_ok_iff.1 h
    exact ⟨.refl, nofun⟩
  | cons t rest ih =>
    obtain ⟨rest', s₁, found, t₁, proposed, bs, hrest, ht, hbs, -, rfl⟩ := pass_cons_eq_ok_iff.1 h
    obtain ⟨hs, hfound⟩ := ih (fun t ht => hi t (List.mem_cons_of_mem _ ht)) hrest
    rw [(alike_of_examine ht).1] at hbs
    have hsub : ∀ {u}, u ∈ Block.statements rest → u ∈ Block.statements (t :: rest) :=
      fun h => Block.mem_statements_cons.2 (.inr (.inr h))
    have hs₁ : s.Refines (Block.Learnable (t :: rest) s) s₁ := hs.mono fun _ _ => .mono hsub id
    refine ⟨hs₁.trans (settleBlocks_refines (hi t (List.mem_cons_self ..)) ?_ hbs), ?_⟩
    · intro d hd s₂ hs₂ name hn
      exact hn.mono (fun h => Block.mem_statements_cons.2 (.inr (.inl ⟨d, hd, h⟩))) (hs₁.trans hs₂).typeOf?_of_any
    · intro c hc
      rcases List.mem_append.1 hc with hc | hc
      · obtain ⟨hn, hl⟩ := hfound c hc
        exact ⟨List.mem_append_right _ hn, hl.mono hsub id⟩
      · -- a name that is unresolved when the statement is examined was so at the start of the pass
        obtain ⟨hn, hl⟩ := learns_of_examine ht hc
        have htop : t ∈ Block.statements (t :: rest) := Block.mem_statements_cons.2 (.inl rfl)
        refine ⟨List.mem_append_left _ hn, List.mem_flatMap.2 ⟨t, htop, hn⟩, ?_⟩
        rcases hl with ⟨type, value, rfl⟩ | hl
        · exact .inl ⟨type, value, htop⟩
        · exact .inr (hs.typeOf?_of_any hl)

theorem round_refines {policy : CommitPolicy} {b b' : Block} {k : Nat}
    (hi : ∀ t ∈ b, ∀ d ∈ t.blocks, ∀ {s d' s'}, (inner d s).result = .ok (d', s') →
      s.Refines (Block.Learnable d s) s')
    (h : (round inner policy b s).result = .ok (k, b', s')) : s.Refines (Block.Learnable b s) s' := by
  obtain ⟨s₁, found, hpass, hcommit⟩ := round_eq_ok_iff.1 h
  obtain ⟨hs, hfound⟩ := pass_refines hi hpass
  refine hs.trans ((commit_refines hcommit).mono ?_)
  rintro name - ⟨c, hc, ht⟩
  exact (Candidate.tells_iff.1 ht).1 ▸ (hfound c hc).2

end

section

variable {o : Options} {n : Nat} {b b' : Block} {s s' : Scope}

theorem infer_refines (h : (infer o b s).result = .ok (n, b', s')) : s.Refines (Block.Learnable b s) s' := by
  suffices Block.Rewrites Stmt.Alike b b' ∧ s.Refines (Block.Learnable b s) s' from this.2
  refine infer_induction (motive := fun b s b' s' => Block.Rewrites Stmt.Alike b b' ∧
    s.Refines (Block.Learnable b s) s') ?_ ?_ h
  · intro b b' s s' k hi h
    obtain ⟨_, _, hpass, -⟩ := round_eq_ok_iff.1 h
    refine ⟨pass_rewrites nested_rewrites hpass, round_refines ?_ h⟩
    exact fun t ht d hd _ _ _ h => (hi d (Block.depth_lt_of_mem ht hd) h).2
  · intro b b₁ b' s s₁ s' ⟨hb, hs⟩ ⟨hb₁, hs₁⟩
    exact ⟨.trans (fun _ _ _ => .trans) hb hb₁, hs.trans (hs₁.mono fun name _ => .of_rewrites hb hs.typeOf?_of_any)⟩

theorem nested_refines (h : (nested o b s).result = .ok (b', s')) : s.Refines (Block.Learnable b s) s' := by
  obtain ⟨n, h⟩ := nested_eq_ok_iff.1 h
  exact infer_refines h

theorem refines_of_pass {found : List Candidate} (h : (pass (nested o) b s).result = .ok (b', s', found)) :
    s.Refines (Block.Learnable b s) s' ∧ ∀ c ∈ found, c.name ∈ Block.ownNames b ∧ Block.Learnable b s c.name :=
  pass_refines (fun _ _ _ _ _ _ _ h => nested_refines h) h

theorem refines_of_round {k : Nat} (h : (round (nested o) o.commitPolicy b s).result = .ok (k, b', s')) :
    s.Refines (Block.Learnable b s) s' :=
  round_refines (fun _ _ _ _ _ _ _ h => nested_refines h) h

theorem grows_of_nested (h : (nested o b s).result = .ok (b', s')) : s.Grows s' := (nested_refines h).grows

theorem grows_of_settleBlocks {bs bs' : List Block} (h : (settleBlocks (nested o) bs s).result = .ok (bs', s')) :
    s.Grows s' :=
  settleBlocks_refines (fun _ _ _ _ _ h => nested_refines h) (fun _ _ _ _ _ _ => trivial) h

theorem grows_of_pass {found : List Candidate} (h : (pass (nested o) b s).result = .ok (b', s', found)) :
    s.Grows s' :=
  (refines_of_pass h).1.grows

theorem grows_of_round {k : Nat} (h : (round (nested o) o.commitPolicy b s).result = .ok (k, b', s')) :
    s.Grows s' :=
  (refines_of_round h).grows

theorem Run.grows (h : Run o n b s b' s') : s.Grows s' := by
  induction h with
  | stop h => exact grows_of_round h
  | again h _ _ ih => exact (grows_of_round h).trans ih

/-- Inference changes nothing in the scope but to give concrete types to names of the tree that have none in the innermost
layer. -/
theorem infer_completes (h : (infer o b s).result = .ok (n, b', s')) : s.Completes (· ∈ Block.names b) s' := by
  have hs := infer_refines h
  exact (hs.mono fun _ _ hlearn => hlearn.1).completes

end

/-- A variable of unknown type, with another one and a method that takes a truth value around it. -/
def layeredScope : Scope :=
  ⟨[⟨.empty, .ofList [("x", .any), ("n", .int)]⟩,
    ⟨.ofList [(16, "takes_bool")], .ofList [("y", .any), ("takes_bool", .native [.bool])]⟩]⟩

def layeredBlock : Block :=
  [.branch (.bool true) [.call (.pointer 16) [.identifier "x"] .call],
    .call (.named "takes_bool") [.identifier "y"] .call]

theorem infer_completes_layered : ∃ n b' s', (infer {} layeredBlock layeredScope).result = .ok (n, b', s') ∧
    s'.currentType? "x" = some .bool ∧ s'.currentType? "y" = some .bool ∧
    layeredScope.Completes (· ∈ Block.names layeredBlock) s' :=
  ⟨_, _, _, rfl, rfl, rfl, infer_completes (o := {}) rfl⟩

end Typing

end MapScript
