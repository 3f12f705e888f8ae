import MapScript.Proofs.Typing.Declarations

/-!
# Fixed points of inference

A tree is settled in a scope if examining all statements of any one of its blocks in that scope changes nothing and
proposes nothing that could be committed. On settled trees inference does one pass and changes nothing, and nowhere else
(`infer_eq_self_iff`): scopes only grow, so a run that ends in the scope it began with has not changed it on the way.

A run stops as soon as a round over the outermost block commits nothing. The resulting tree is settled if the scope has
not changed in that round (`infer_result_eq_self_iff`); blocks inside may have changed it before, as in `second_run_changes`.
-/

namespace MapScript.Typing

/-- Examines the statements of a block, from the last to the first, all in one scope. -/
def examineAll (s : Scope) : Block → Except Failure (Block × List Candidate)
  | [] => .ok ([], [])
  | t :: rest => do
    let (rest, found) ← examineAll s rest
    let (t, proposed) ← examine s t
    return (t :: rest, found ++ proposed)

/-- Nothing about the blocks of the tree can be learned or changed in the scope. -/
def Settled (policy : CommitPolicy) (s : Scope) (b : Block) : Prop :=
  ∀ c ∈ Block.everyBlock b, ∃ found, examineAll s c = .ok (c, found) ∧ commit policy found s = .ok (0, s)

theorem examineAll_cons_eq_ok_iff {s : Scope} {t : Stmt} {rest b : Block} {all : List Candidate} :
    examineAll s (t :: rest) = .ok (b, all) ↔ ∃ rest' found t' proposed, examineAll s rest = .ok (rest', found) ∧
      examine s t = .ok (t', proposed) ∧ b = t' :: rest' ∧ all = found ++ proposed := by
  constructor
  · intro h
    obtain ⟨⟨rest', found⟩, hrest, h⟩ := bind_eq_ok_iff.1 h
    obtain ⟨⟨t', proposed⟩, ht, h⟩ := bind_eq_ok_iff.1 h
    cases h
    exact ⟨rest', found, t', proposed, hrest, ht, rfl, rfl⟩
  · rintro ⟨rest', found, t', proposed, hrest, ht, rfl, rfl⟩
    exact bind_eq_ok_iff.2 ⟨_, hrest, bind_eq_ok_iff.2 ⟨_, ht, rfl⟩⟩

theorem Settled.inside {policy : CommitPolicy} {s : Scope} {b d : Block} {t : Stmt} (h : Settled policy s b)
    (ht : t ∈ b) (hd : d ∈ t.blocks) : Settled policy s d :=
  fun c hc => h c (Block.mem_everyBlock_of_mem_blocks ht hd hc)

section

variable {o : Options} {n : Nat} {b b' : Block} {s s' : Scope}

/-! ### Runs that end in the scope they began with -/

private theorem round_same {k : Nat} (h : (round (nested o) o.commitPolicy b s).result = .ok (k, b', s)) :
    k = 0 ∧ ∃ found, (pass (nested o) b s).result = .ok (b', s, found) ∧ commit o.commitPolicy found s = .ok (0, s) := by
  obtain ⟨s₁, found, hpass, hcommit⟩ := round_eq_ok_iff.1 h
  obtain rfl := (grows_of_pass hpass).antisymm (commit_refines hcommit)
  obtain rfl := (commit_count_eq_zero_iff hcommit).2 rfl
  exact ⟨rfl, found, hpass, hcommit⟩

private theorem run_same (h : Run o n b s b' s) :
    n = 1 ∧ ∃ found, (pass (nested o) b s).result = .ok (b', s, found) ∧ commit o.commitPolicy found s = .ok (0, s) := by
  cases h with
  | stop h => exact ⟨rfl, (round_same h).2⟩
  | again h hk hrun =>
    -- the first round has come back to the scope, so that it has committed nothing
    obtain rfl := (grows_of_round h).antisymm hrun.grows
    exact absurd (round_same h).1 hk

private theorem settleBlocks_same {bs bs' : List Block} (h : (settleBlocks (nested o) bs s).result = .ok (bs', s)) :
    ∀ d' ∈ bs', ∃ d ∈ bs, (nested o d s).result = .ok (d', s) := by
  intro d' hd'
  obtain ⟨before, d, after, before', s₁, s₂, after', rfl, hbefore, hd, hafter⟩ := exists_of_mem_settleBlocks h hd'
  -- the scope comes back to itself, so that it has not changed on the way
  obtain rfl := (grows_of_settleBlocks hbefore).antisymm ((grows_of_nested hd).trans (grows_of_settleBlocks hafter))
  obtain rfl := (grows_of_nested hd).antisymm (grows_of_settleBlocks hafter)
  exact ⟨d, List.mem_append_right _ (List.mem_cons_self ..), hd⟩

private theorem examine_withBlocks {t : Stmt} {bs : List Block} {found : List Candidate}
    (h : examine s t = .ok (t, found)) (hb : bs.length = t.blocks.length) :
    examine s (t.withBlocks bs) = .ok (t.withBlocks bs, found) := by
  cases t with
  | branch condition body | loop count body | thread child body | branchElse condition body otherwise =>
    cases h
    rcases bs with _ | ⟨b, _ | ⟨b', _ | ⟨b'', bs⟩⟩⟩ <;>
      simp only [Stmt.blocks, List.length_cons, List.length_nil] at hb <;> first | omega | rfl
  | switch value arms =>
    cases h
    rfl
  | _ =>
    obtain rfl := List.eq_nil_of_length_eq_zero hb
    rwa [Stmt.withBlocks_nil rfl]

/-- A pass that does not change the scope makes of its block what examining all statements in the scope keeps. -/
private theorem pass_same {all : List Candidate} (h : (pass (nested o) b s).result = .ok (b', s, all)) :
    examineAll s b' = .ok (b', all) ∧ ∀ t ∈ b', ∀ d' ∈ t.blocks, ∃ d, (nested o d s).result = .ok (d', s) ∧
      Block.depth d < Block.depth b := by
  induction b generalizing b' all with
  | nil =>
    obtain ⟨rfl, -, rfl⟩ := pass_nil_eq_ok_iff.1 h
    exact ⟨rfl, nofun⟩
  | cons t rest ih =>
    obtain ⟨rest', s₁, found, t₁, proposed, bs, hrest, ht, hbs, rfl, rfl⟩ := pass_cons_eq_ok_iff.1 h
    obtain rfl := (grows_of_pass hrest).antisymm (grows_of_settleBlocks hbs)
    obtain ⟨hall, hinside⟩ := ih hrest
    have hlength := length_of_settleBlocks hbs
    refine ⟨examineAll_cons_eq_ok_iff.2 ⟨_, _, _, _, hall, examine_withBlocks (examine_idem ht) hlength, rfl, rfl⟩, ?_⟩
    intro u hu d' hd'
    rw [Block.depth]
    rcases List.mem_cons.1 hu with rfl | hu
    · rw [Stmt.blocks_withBlocks hlength] at hd'
      obtain ⟨d, hd, h⟩ := settleBlocks_same hbs d' hd'
      rw [(alike_of_examine ht).1] at hd
      have := Stmt.depth_lt_of_mem_blocks hd
      exact ⟨d, h, by omega⟩
    · obtain ⟨d, h, hdepth⟩ := hinside u hu d' hd'
      exact ⟨d, h, by omega⟩

/-- A run that does not change the scope makes a settled tree, in one round. -/
theorem settled_of_run (h : Run o n b s b' s) : n = 1 ∧ Settled o.commitPolicy s b' := by
  obtain ⟨rfl, found, hpass, hcommit⟩ := run_same h
  refine ⟨rfl, ?_⟩
  clear h
  induction hd : Block.depth b using Nat.strongRecOn generalizing b b' found with
  | ind depth ih =>
    subst hd
    obtain ⟨hall, hinside⟩ := pass_same hpass
    intro c hc
    rcases Block.mem_everyBlock_iff.1 hc with rfl | ⟨t, ht, d', hd', hc⟩
    · exact ⟨found, hall, hcommit⟩
    · obtain ⟨d, h, hdepth⟩ := hinside t ht d' hd'
      obtain ⟨m, h⟩ := nested_eq_ok_iff.1 h
      obtain ⟨-, found', hpass', hcommit'⟩ := run_same (infer_eq_ok_iff.1 h).1
      exact ih _ hdepth found' hpass' hcommit' rfl c hc

/-! ### Runs over settled trees -/

private theorem settleBlocks_self {bs : List Block} (h : ∀ d ∈ bs, (nested o d s).result = .ok (d, s)) :
    (settleBlocks (nested o) bs s).result = .ok (bs, s) := by
  induction bs with
  | nil => rfl
  | cons d rest ih =>
    exact settleBlocks_cons_eq_ok_iff.2
      ⟨d, s, rest, h d (List.mem_cons_self ..), ih fun d hd => h d (List.mem_cons_of_mem _ hd), rfl⟩

private theorem pass_self {found : List Candidate} (hall : examineAll s b = .ok (b, found))
    (h : ∀ t ∈ b, ∀ d ∈ t.blocks, (nested o d s).result = .ok (d, s)) :
    (pass (nested o) b s).result = .ok (b, s, found) := by
  induction b generalizing found with
  | nil =>
    cases hall
    rfl
  | cons t rest ih =>
    obtain ⟨rest', found, t', proposed, hrest, ht, hb, rfl⟩ := examineAll_cons_eq_ok_iff.1 hall
    cases hb
    have hpass := ih hrest fun t ht => h t (List.mem_cons_of_mem _ ht)
    have hbs := settleBlocks_self (h t (List.mem_cons_self ..))
    exact pass_cons_eq_ok_iff.2 ⟨rest, s, found, t, proposed, t.blocks, hpass, ht, hbs, by rw [t.withBlocks_blocks], rfl⟩

theorem Settled.run (h : Settled o.commitPolicy s b) (hlimit : 1 ≤ o.passLimit.toNat) : Run o 1 b s b s := by
  induction hd : Block.depth b using Nat.strongRecOn generalizing b with
  | ind depth ih =>
    subst hd
    obtain ⟨found, hall, hcommit⟩ := h b (Block.mem_everyBlock_self b)
    refine .stop (round_eq_ok_iff.2 ⟨s, found, pass_self hall fun t ht d hd => ?_, hcommit⟩)
    exact nested_eq_ok_iff.2 ⟨1, infer_eq_ok_iff.2 ⟨ih _ (Block.depth_lt_of_mem ht hd) (h.inside ht hd) rfl, hlimit⟩⟩

/-! ### Repeated inference -/

/-- Inference does a single pass and changes neither the tree nor the scope, just when the tree is settled in the scope. -/
theorem infer_eq_self_iff (hlimit : 1 ≤ o.passLimit.toNat) :
    (infer o b s).result = .ok (1, b, s) ↔ Settled o.commitPolicy s b := by
  rw [infer_eq_ok_iff]
  exact ⟨fun h => (settled_of_run h.1).2, fun h => ⟨h.run hlimit, hlimit⟩⟩

theorem Run.pos (h : Run o n b s b' s') : 1 ≤ n := by
  cases h <;> omega

/-- Inferring the result again does a single pass and changes nothing, just when the result is settled; it is, if the last
round ends in the scope in which it began. -/
theorem infer_result_eq_self_iff (h : (infer o b s).result = .ok (n, b', s')) :
    ((infer o b' s').result = .ok (1, b', s') ↔ Settled o.commitPolicy s' b') ∧
      ((∃ c, LastRound o b s c s') → Settled o.commitPolicy s' b') := by
  obtain ⟨hrun, hn⟩ := infer_eq_ok_iff.1 h
  refine ⟨infer_eq_self_iff (Nat.le_trans hrun.pos hn), ?_⟩
  rintro ⟨c, hlast⟩
  exact (settled_of_run (.stop (hlast.round_eq hrun))).2

end

/-- The second run changes what the first one has made. -/
theorem second_run_changes : ∃ n b' s', (infer {} lateBlock lateScope).result = .ok (n, b', s') ∧
    ∃ n' b'', (infer {} b' s').result = .ok (n', b'', s') ∧ .declare .bool "x" none ∈ Block.statements b'' ∧
      (infer {} b' s').result ≠ .ok (1, b', s') := by
  refine ⟨_, _, _, rfl, _, _, rfl, .tail _ (.tail _ (.head _)), fun h => ?_⟩
  cases h

theorem infer_result_eq_self_iff_late : ∃ n b' s', (infer {} lateBlock lateScope).result = .ok (n, b', s') ∧
    ((infer {} b' s').result = .ok (1, b', s') ↔ Settled CommitPolicy.skipRemaining s' b') :=
  ⟨_, _, _, rfl, (infer_result_eq_self_iff (o := {}) (b := lateBlock) (s := lateScope) rfl).1⟩

end MapScript.Typing
