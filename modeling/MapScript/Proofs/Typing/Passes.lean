import MapScript.Proofs.Typing.Learning

/-!
# Passes and examinations within a run

A run over a tree goes through its blocks many times. `PassOf o Start` are the passes that begin the rounds which `Start`
selects, in the run over the tree and, when such a pass comes to a block inside a statement, in the run over that block.
With `FirstRound` they are the first passes over all blocks, which come to a place at most once (`Examined.unique`), and
to every place if the run has a result (`exists_examined_of_at?`). With `LastRound` they are the last ones, and what they
make of the statements is the resulting tree (`exists_examined_of_mem`, `mem_statements_of_examined`).
-/

namespace MapScript.Typing

/-- The run over `b` from `s` begins with a round over `c` from `s₁`. -/
def FirstRound (b : Block) (s : Scope) (c : Block) (s₁ : Scope) : Prop := c = b ∧ s₁ = s

/-- The run over `b` from `s` ends with a round over `c` from `s₁`. -/
inductive LastRound (o : Options) : Block → Scope → Block → Scope → Prop
  | stop {b b' : Block} {s s' : Scope} : (round (nested o) o.commitPolicy b s).result = .ok (0, b', s') →
    LastRound o b s b s
  | again {k : Nat} {b b₁ c : Block} {s s₁ s₂ : Scope} :
    (round (nested o) o.commitPolicy b s).result = .ok (k, b₁, s₁) → k ≠ 0 → LastRound o b₁ s₁ c s₂ →
    LastRound o b s c s₂

/-- The run over `b` from `s` contains a pass over `c` from `s₁`, in a round that `Start` selects, and if `c` is a block
inside a statement, to which the way leads, then so is the pass over the block around it. -/
inductive PassOf (o : Options) (Start : Block → Scope → Block → Scope → Prop) :
    Block → Scope → List (Nat × Nat) → Block → Scope → Prop
  | own {b c : Block} {s s₁ : Scope} : Start b s c s₁ → PassOf o Start b s [] c s₁
  | inside {b c d front rest rest' : Block} {t t₁ : Stmt} {before before' after : List Block} {s s₁ s₂ s₃ s₄ : Scope}
      {found proposed : List Candidate} {way : List (Nat × Nat)} :
    Start b s (front ++ t :: rest) s₁ → (pass (nested o) rest s₁).result = .ok (rest', s₂, found) →
    examine s₂ t = .ok (t₁, proposed) → t₁.blocks = before ++ d :: after →
    (settleBlocks (nested o) before s₂).result = .ok (before', s₃) → PassOf o Start d s₃ way c s₄ →
    PassOf o Start b s ((front.length, before.length) :: way) c s₄

/-- The statement `t`, at the place `p` of the tree, is examined in the scope `e` in a pass of the run over `b` from `s`,
and that pass has the result `r`. -/
def Examined (o : Options) (Start : Block → Scope → Block → Scope → Prop) (b : Block) (s : Scope) (p : Place) (t : Stmt)
    (e : Scope) (r : Except Failure (Block × Scope × List Candidate)) : Prop :=
  ∃ front rest rest' s₁ found, PassOf o Start b s p.way (front ++ t :: rest) s₁ ∧ front.length = p.index ∧
    (pass (nested o) rest s₁).result = .ok (rest', e, found) ∧ r = (pass (nested o) (front ++ t :: rest) s₁).result

/-! ### Places in a pass -/

section

variable {inner : Block → Scope → Logged Failure (Block × Scope)}

theorem pass_append_eq_ok_iff {front back b : Block} {s s' : Scope} {all : List Candidate} :
    (pass inner (front ++ back) s).result = .ok (b, s', all) ↔ ∃ back' s₁ found front' found',
      (pass inner back s).result = .ok (back', s₁, found) ∧
      (pass inner front s₁).result = .ok (front', s', found') ∧ b = front' ++ back' ∧ all = found ++ found' := by
  induction front generalizing b s' all with
  | nil =>
    constructor
    · exact fun h => ⟨b, s', all, [], [], h, rfl, rfl, (List.append_nil all).symm⟩
    · rintro ⟨_, _, _, _, _, h, h', rfl, rfl⟩
      obtain ⟨rfl, rfl, rfl⟩ := pass_nil_eq_ok_iff.1 h'
      rwa [List.append_nil]
  | cons t front ih =>
    rw [List.cons_append, pass_cons_eq_ok_iff]
    constructor
    · rintro ⟨_, s₂, _, t₁, proposed, bs, h, ht, hbs, rfl, rfl⟩
      obtain ⟨back', s₁, found, front', found', hback, hfront, rfl, rfl⟩ := ih.1 h
      exact ⟨back', s₁, found, t₁.withBlocks bs :: front', found' ++ proposed, hback,
        pass_cons_eq_ok_iff.2 ⟨front', s₂, found', t₁, proposed, bs, hfront, ht, hbs, rfl, rfl⟩, rfl,
        List.append_assoc ..⟩
    · rintro ⟨back', s₁, found, _, _, hback, h, rfl, rfl⟩
      obtain ⟨front', s₂, found', t₁, proposed, bs, hfront, ht, hbs, rfl, rfl⟩ := pass_cons_eq_ok_iff.1 h
      exact ⟨front' ++ back', s₂, found ++ found', t₁, proposed, bs,
        ih.2 ⟨back', s₁, found, front', found', hback, hfront, rfl, rfl⟩, ht, hbs, rfl,
        (List.append_assoc ..).symm⟩

/-- A pass goes through what lies behind a statement, the statement, the blocks inside it and what lies in front of it. -/
theorem pass_at_eq_ok_iff {front rest b : Block} {t : Stmt} {s s' : Scope} {all : List Candidate} :
    (pass inner (front ++ t :: rest) s).result = .ok (b, s', all) ↔
      ∃ rest' e found t₁ proposed bs s₁ front' found', (pass inner rest s).result = .ok (rest', e, found) ∧
        examine e t = .ok (t₁, proposed) ∧ (settleBlocks inner t₁.blocks e).result = .ok (bs, s₁) ∧
        (pass inner front s₁).result = .ok (front', s', found') ∧ b = front' ++ t₁.withBlocks bs :: rest' ∧
        all = found ++ proposed ++ found' := by
  rw [pass_append_eq_ok_iff]
  constructor
  · rintro ⟨_, s₁, _, front', found', h, hfront, rfl, rfl⟩
    obtain ⟨rest', e, found, t₁, proposed, bs, hrest, ht, hbs, rfl, rfl⟩ := pass_cons_eq_ok_iff.1 h
    exact ⟨rest', e, found, t₁, proposed, bs, s₁, front', found', hrest, ht, hbs, hfront, rfl, rfl⟩
  · rintro ⟨rest', e, found, t₁, proposed, bs, s₁, front', found', hrest, ht, hbs, hfront, rfl, rfl⟩
    exact ⟨_, s₁, _, front', found',
      pass_cons_eq_ok_iff.2 ⟨rest', e, found, t₁, proposed, bs, hrest, ht, hbs, rfl, rfl⟩, hfront, rfl, rfl⟩

private theorem exists_of_mem_pass {b b' : Block} {s s' : Scope} {all : List Candidate} {u : Stmt}
    (h : (pass inner b s).result = .ok (b', s', all)) (hu : u ∈ b') :
    ∃ front t rest rest' e found t₁ proposed bs s₁ front' found', b = front ++ t :: rest ∧
      (pass inner rest s).result = .ok (rest', e, found) ∧ examine e t = .ok (t₁, proposed) ∧
      (settleBlocks inner t₁.blocks e).result = .ok (bs, s₁) ∧ u = t₁.withBlocks bs ∧
      (pass inner front s₁).result = .ok (front', s', found') := by
  induction b generalizing b' s' all with
  | nil =>
    obtain ⟨rfl, -⟩ := pass_nil_eq_ok_iff.1 h
    cases hu
  | cons t rest ih =>
    obtain ⟨rest', e, found, t₁, proposed, bs, hrest, ht, hbs, rfl, -⟩ := pass_cons_eq_ok_iff.1 h
    rcases List.mem_cons.1 hu with rfl | hu
    · exact ⟨[], t, rest, rest', e, found, t₁, proposed, bs, s', [], [], rfl, hrest, ht, hbs, rfl, rfl⟩
    · obtain ⟨front, v, back, back', e', found', v₁, proposed', bs', s₁, front', found'', rfl, hback, hv, hbs', rfl,
        hfront⟩ := ih hrest hu
      exact ⟨t :: front, v, back, back', e', found', v₁, proposed', bs', s₁, _, _, rfl, hback, hv, hbs', rfl,
        pass_cons_eq_ok_iff.2 ⟨front', e, found'', t₁, proposed, bs, hfront, ht, hbs, rfl, rfl⟩⟩

theorem exists_of_mem_settleBlocks {bs bs' : List Block} {s s' : Scope} {d' : Block}
    (h : (settleBlocks inner bs s).result = .ok (bs', s')) (hd : d' ∈ bs') :
    ∃ before d after before' s₁ s₂ after', bs = before ++ d :: after ∧
      (settleBlocks inner before s).result = .ok (before', s₁) ∧ (inner d s₁).result = .ok (d', s₂) ∧
      (settleBlocks inner after s₂).result = .ok (after', s') := by
  induction bs generalizing s bs' with
  | nil =>
    obtain ⟨rfl, -⟩ := settleBlocks_nil_eq_ok_iff.1 h
    cases hd
  | cons c rest ih =>
    obtain ⟨c', s₁, rest', hc, hrest, rfl⟩ := settleBlocks_cons_eq_ok_iff.1 h
    rcases List.mem_cons.1 hd with rfl | hd
    · exact ⟨[], c, rest, [], s, s₁, rest', rfl, rfl, hc, hrest⟩
    · obtain ⟨before, d, after, before', s₂, s₃, after', rfl, hbefore, hd, hafter⟩ := ih hrest hd
      exact ⟨c :: before, d, after, c' :: before', s₂, s₃, after', rfl,
        settleBlocks_cons_eq_ok_iff.2 ⟨c', s₁, before', hc, hbefore, rfl⟩, hd, hafter⟩

end

/-! ### First passes -/

section

variable {o : Options} {b : Block} {s : Scope}

private theorem PassOf.unique {way : List (Nat × Nat)} {c c' : Block} {s₁ s₁' : Scope}
    (h : PassOf o FirstRound b s way c s₁) (h' : PassOf o FirstRound b s way c' s₁') : c = c' ∧ s₁ = s₁' := by
  induction h with
  | own h =>
    obtain ⟨rfl, rfl⟩ := h
    cases h' with
    | own h' => exact ⟨h'.1.symm, h'.2.symm⟩
  | inside h hrest ht hblocks hbefore _ ih =>
    generalize hway : (_, _) :: _ = way' at h'
    cases h' with
    | own => cases hway
    | inside h' hrest' ht' hblocks' hbefore' hp =>
      rw [List.cons.injEq, Prod.mk.injEq] at hway
      obtain ⟨⟨hfront, hlength⟩, rfl⟩ := hway
      -- both passes begin with the same block, so that the way leads to the same statement and the same block in it
      obtain ⟨rfl, hback⟩ := List.append_inj (h.1.trans h'.1.symm) hfront
      obtain ⟨rfl, rfl⟩ := List.cons.inj hback
      rw [h.2, ← h'.2, hrest'] at hrest
      cases hrest
      rw [ht'] at ht
      cases ht
      obtain ⟨rfl, hback⟩ := List.append_inj (hblocks.symm.trans hblocks') hlength
      obtain ⟨rfl, rfl⟩ := List.cons.inj hback
      rw [hbefore'] at hbefore
      cases hbefore
      exact ih hp

/-- A first pass examines every place once. -/
theorem Examined.unique {p : Place} {t t' : Stmt} {e e' : Scope} {r r' : Except Failure (Block × Scope × List Candidate)}
    (h : Examined o FirstRound b s p t e r) (h' : Examined o FirstRound b s p t' e' r') : t = t' ∧ e = e' ∧ r = r' := by
  obtain ⟨front, rest, _, _, _, hp, hi, hrest, rfl⟩ := h
  obtain ⟨front', rest', _, _, _, hp', hi', hrest', rfl⟩ := h'
  obtain ⟨hc, rfl⟩ := hp.unique hp'
  obtain ⟨rfl, hback⟩ := List.append_inj hc (hi.trans hi'.symm)
  obtain ⟨rfl, rfl⟩ := List.cons.inj hback
  rw [hrest'] at hrest
  cases hrest
  exact ⟨rfl, rfl, rfl⟩

end

/-! ### Rounds of a run -/

section

variable {o : Options} {n : Nat} {b b' c : Block} {s s' s₁ : Scope}

theorem Run.exists_lastRound (h : Run o n b s b' s') :
    ∃ c s₁, LastRound o b s c s₁ ∧ (round (nested o) o.commitPolicy c s₁).result = .ok (0, b', s') := by
  induction h with
  | stop h => exact ⟨_, _, .stop h, h⟩
  | again h hk _ ih =>
    obtain ⟨c, s₁, hlast, hround⟩ := ih
    exact ⟨c, s₁, .again h hk hlast, hround⟩

theorem LastRound.round_eq (hl : LastRound o b s c s₁) (h : Run o n b s b' s') :
    (round (nested o) o.commitPolicy c s₁).result = .ok (0, b', s') := by
  induction hl generalizing n with
  | stop h₀ =>
    cases h with
    | stop h => exact h
    | again h hk =>
      rw [h] at h₀
      cases h₀
      exact absurd rfl hk
  | again h₀ hk _ ih =>
    cases h with
    | stop h =>
      rw [h] at h₀
      cases h₀
      exact absurd rfl hk
    | again h _ hrun =>
      rw [h] at h₀
      cases h₀
      exact ih hrun

theorem LastRound.grows (hl : LastRound o b s c s₁) : s.Grows s₁ := by
  induction hl with
  | stop => exact .refl
  | again h _ _ ih => exact (grows_of_round h).trans ih

theorem Run.exists_firstRound (h : Run o n b s b' s') :
    ∃ k c s₁, (round (nested o) o.commitPolicy b s).result = .ok (k, c, s₁) ∧ s₁.Grows s' := by
  cases h with
  | stop h => exact ⟨_, _, _, h, .refl⟩
  | again h _ hrun => exact ⟨_, _, _, h, hrun.grows⟩

/-- If a run has a result, then so have the rounds in it. What `R` says about the trees that selected rounds make and the
trees that their runs make, it says in the end about the tree that the whole run makes. -/
theorem PassOf.exists_round {Start : Block → Scope → Block → Scope → Prop} {R : Block → Block → Prop}
    (hstart : ∀ {n b b' c s s' s₁}, Run o n b s b' s' → Start b s c s₁ → s.Grows s₁ ∧
      ∃ k c' s₂, (round (nested o) o.commitPolicy c s₁).result = .ok (k, c', s₂) ∧ s₂.Grows s' ∧ R c' b')
    (hinside : ∀ {b' c' d' e' u}, R c' b' → u ∈ c' → d' ∈ u.blocks → R e' d' → R e' b')
    {way : List (Nat × Nat)} (hp : PassOf o Start b s way c s₁) (h : Run o n b s b' s') : s.Grows s₁ ∧
      ∃ k c' s₂, (round (nested o) o.commitPolicy c s₁).result = .ok (k, c', s₂) ∧ s₂.Grows s' ∧ R c' b' := by
  induction hp generalizing n b' s' with
  | own hs => exact hstart h hs
  | inside hs hrest ht hblocks hbefore _ ih =>
    obtain ⟨hs₁, k, c', s₂, hround, hs₂, hR⟩ := hstart h hs
    obtain ⟨_, found, hpass, hcommit⟩ := round_eq_ok_iff.1 hround
    obtain ⟨_, _, _, _, _, bs, _, _, _, hrest', ht', hbs, hfront, rfl, -⟩ := pass_at_eq_ok_iff.1 hpass
    rw [hrest] at hrest'
    cases hrest'
    rw [ht] at ht'
    cases ht'
    have hlength := length_of_settleBlocks hbs
    rw [hblocks] at hbs
    obtain ⟨_, _, _, hbefore', hbs, rfl⟩ := settleBlocks_append_eq_ok_iff.1 hbs
    rw [hbefore] at hbefore'
    cases hbefore'
    obtain ⟨d', s₅, after', hd, hafter, rfl⟩ := settleBlocks_cons_eq_ok_iff.1 hbs
    obtain ⟨m, hd⟩ := nested_eq_ok_iff.1 hd
    obtain ⟨hs₃, j, e', s₆, hround', hs₆, hR'⟩ := ih (infer_eq_ok_iff.1 hd).1
    -- behind the block inside, the pass goes on and the run ends, and the scope only grows
    have hend : s₅.Grows s' :=
      (grows_of_settleBlocks hafter).trans ((grows_of_pass hfront).trans ((commit_refines hcommit).grows.trans hs₂))
    refine ⟨hs₁.trans ((grows_of_pass hrest).trans ((grows_of_settleBlocks hbefore).trans hs₃)),
      j, e', s₆, hround', hs₆.trans hend, hinside hR (List.mem_append_right _ (List.mem_cons_self ..)) ?_ hR'⟩
    rw [Stmt.blocks_withBlocks hlength]
    exact List.mem_append_right _ (List.mem_cons_self ..)

theorem PassOf.exists_firstRound {way : List (Nat × Nat)} (hp : PassOf o FirstRound b s way c s₁)
    (h : Run o n b s b' s') : s.Grows s₁ ∧
      ∃ k c' s₂, (round (nested o) o.commitPolicy c s₁).result = .ok (k, c', s₂) ∧ s₂.Grows s' := by
  obtain ⟨hs₁, k, c', s₂, hround, hs₂, -⟩ := hp.exists_round (R := fun _ _ => True)
    (fun h hf => by
      obtain ⟨rfl, rfl⟩ := hf
      obtain ⟨k, c, s₁, hround, hs₁⟩ := h.exists_firstRound
      exact ⟨.refl, k, c, s₁, hround, hs₁, trivial⟩)
    (fun _ _ _ _ => trivial) h
  exact ⟨hs₁, k, c', s₂, hround, hs₂⟩

/-- If a run has a result, its first pass comes to every statement of its block. -/
private theorem Run.firstPass_at {front rest : Block} {t : Stmt} (h : Run o n (front ++ t :: rest) s b' s') :
    ∃ rest' e found t₁ proposed bs s₁, (pass (nested o) rest s).result = .ok (rest', e, found) ∧
      examine e t = .ok (t₁, proposed) ∧ (settleBlocks (nested o) t₁.blocks e).result = .ok (bs, s₁) := by
  obtain ⟨k, b₁, s₁, hround, -⟩ := h.exists_firstRound
  obtain ⟨_, all, hpass, -⟩ := round_eq_ok_iff.1 hround
  obtain ⟨rest', e, found, t₁, proposed, bs, s₁, _, _, hrest, ht, hbs, -⟩ := pass_at_eq_ok_iff.1 hpass
  exact ⟨rest', e, found, t₁, proposed, bs, s₁, hrest, ht, hbs⟩

/-- If a run has a result, the first pass over a block comes to all its statements. -/
theorem exists_examined_of_at? {p : Place} {t : Stmt} (h : Run o n b s b' s') (ht : Block.at? b p = some t) :
    ∃ e r, Examined o FirstRound b s p t e r := by
  obtain ⟨way, i⟩ := p
  induction way generalizing b b' s s' n with
  | nil =>
    obtain ⟨front, rest, rfl, rfl⟩ := exists_append_of_getElem? (l := b) ht
    obtain ⟨rest', e, found, _, _, _, _, hrest, -⟩ := h.firstPass_at
    exact ⟨e, _, front, rest, rest', s, found, .own ⟨rfl, rfl⟩, rfl, hrest, rfl⟩
  | cons ij way ih =>
    obtain ⟨i₁, j⟩ := ij
    obtain ⟨u, d, hu, hd, hinside⟩ := Block.at?_inside_eq_some_iff.1 ht
    obtain ⟨front, rest, rfl, rfl⟩ := exists_append_of_getElem? hu
    obtain ⟨before, after, hblocks, rfl⟩ := exists_append_of_getElem? hd
    obtain ⟨rest', e, found, u₁, proposed, bs, _, hrest, hu₁, hbs⟩ := h.firstPass_at
    -- the rule has left the blocks alone, so that the way goes on as before
    have hblocks₁ := (alike_of_examine hu₁).1.trans hblocks
    rw [hblocks₁] at hbs
    obtain ⟨before', s₂, _, hbefore, hbs, -⟩ := settleBlocks_append_eq_ok_iff.1 hbs
    obtain ⟨d', s₃, _, hd', -⟩ := settleBlocks_cons_eq_ok_iff.1 hbs
    obtain ⟨m, hd'⟩ := nested_eq_ok_iff.1 hd'
    obtain ⟨e', r, front', back, back', s₄, found', hp, hi, hback, hr⟩ := ih (infer_eq_ok_iff.1 hd').1 hinside
    exact ⟨e', r, front', back, back', s₄, found', .inside ⟨rfl, rfl⟩ hrest hu₁ hblocks₁ hbefore hp, hi, hback, hr⟩

/-- A statement without blocks that is examined in a last pass is in the resulting tree as the rule makes it. -/
theorem mem_statements_of_examined {p : Place} {t : Stmt} {e : Scope} {r : Except Failure (Block × Scope × List Candidate)}
    (h : Run o n b s b' s') (ht : Examined o (LastRound o) b s p t e r) (hb : t.blocks = []) :
    ∃ t₁ proposed, examine e t = .ok (t₁, proposed) ∧ t₁ ∈ Block.statements b' := by
  obtain ⟨front, rest, rest', s₁, found, hp, -, hrest, -⟩ := ht
  obtain ⟨-, k, c', s₂, hround, -, hsub⟩ := hp.exists_round
    (R := fun c' b' => ∀ u ∈ Block.statements c', u ∈ Block.statements b')
    (fun h hl => ⟨hl.grows, 0, _, _, hl.round_eq h, .refl, fun _ h => h⟩)
    (fun hc hu hd he u h => hc u (Block.mem_statements_iff.2 ⟨_, hu, .inr ⟨_, hd, he u h⟩⟩)) h
  obtain ⟨_, found', hpass, -⟩ := round_eq_ok_iff.1 hround
  obtain ⟨_, _, _, t₁, proposed, bs, _, _, _, hrest', ht, hbs, -, rfl, -⟩ := pass_at_eq_ok_iff.1 hpass
  rw [hrest] at hrest'
  cases hrest'
  have hb₁ := (alike_of_examine ht).1.trans hb
  rw [hb₁] at hbs
  obtain ⟨rfl, -⟩ := settleBlocks_nil_eq_ok_iff.1 hbs
  rw [Stmt.withBlocks_nil hb₁] at hsub
  exact ⟨t₁, proposed, ht,
    hsub t₁ (Block.mem_statements_of_mem (List.mem_append_right _ (List.mem_cons_self ..)))⟩

/-- A statement without blocks in the resulting tree is what the rule makes of one in a last pass. -/
theorem exists_examined_of_mem {u : Stmt} (h : Run o n b s b' s') (hu : u ∈ Block.statements b') (hb : u.blocks = []) :
    ∃ p t e r proposed, Examined o (LastRound o) b s p t e r ∧ examine e t = .ok (u, proposed) ∧ e.Grows s' := by
  induction hd : Block.depth b' using Nat.strongRecOn generalizing b b' s s' n with
  | ind depth ih =>
    subst hd
    obtain ⟨c, s₁, hlast, hround⟩ := h.exists_lastRound
    obtain ⟨s₂, all, hpass, hcommit⟩ := round_eq_ok_iff.1 hround
    obtain ⟨v, hv, huv⟩ := Block.mem_statements_iff.1 hu
    obtain ⟨front, t, rest, rest', e, found, t₁, proposed, bs, s₃, front', found', rfl, hrest, ht, hbs, rfl, hfront⟩ :=
      exists_of_mem_pass hpass hv
    have hlength := length_of_settleBlocks hbs
    have hs₃ : s₃.Grows s' := (grows_of_pass hfront).trans (commit_refines hcommit).grows
    rcases huv with rfl | ⟨d', hd', hu⟩
    · -- the statement is in the block itself
      rw [Stmt.blocks_withBlocks hlength] at hb
      subst hb
      rw [Stmt.withBlocks_nil (List.eq_nil_of_length_eq_zero hlength.symm)]
      exact ⟨⟨[], front.length⟩, t, e, _, proposed, ⟨front, rest, rest', s₁, found, .own hlast, rfl, hrest, rfl⟩, ht,
        (grows_of_settleBlocks hbs).trans hs₃⟩
    · -- the statement is in a block inside, and comes from the run over that block
      have hdepth := Block.depth_lt_of_mem hv hd'
      rw [Stmt.blocks_withBlocks hlength] at hd'
      obtain ⟨before, d, after, before', s₄, s₅, after', hblocks, hbefore, hd, hafter⟩ :=
        exists_of_mem_settleBlocks hbs hd'
      obtain ⟨m, hd⟩ := nested_eq_ok_iff.1 hd
      obtain ⟨⟨way, i⟩, t', e', r, proposed', ⟨front', back, back', s₆, found', hp, hi, hback, hr⟩, ht', he'⟩ :=
        ih _ hdepth (infer_eq_ok_iff.1 hd).1 hu rfl
      exact ⟨⟨(front.length, before.length) :: way, i⟩, t', e', r, proposed', ⟨front', back, back', s₆, found',
        .inside hlast hrest ht hblocks hbefore hp, hi, hback, hr⟩, ht',
        he'.trans ((grows_of_settleBlocks hafter).trans hs₃)⟩

end

end MapScript.Typing
