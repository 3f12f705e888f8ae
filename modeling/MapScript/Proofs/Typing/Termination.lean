import Mathlib.Data.Finset.Card
import MapScript.Proofs.Typing.Learning

/-!
# Termination of type inference

A round that commits something leaves fewer names of the statements of its block that have no concrete type and may get
one (`card_pending_lt`). So if more rounds are allowed than there are such names at the start, in every block of the tree,
inference has a result unless types disagree (`infer_failsByMismatch_of_pending`), after at most one round more than the
outermost block has such names (`infer_ends_within`).
-/

namespace MapScript

namespace Block

/-- The names in the statements of a block, not counting the blocks inside it, that have no concrete type. -/
def unresolved (b : Block) (s : Scope) : Finset Text := ((ownNames b).filter fun name => s.known name = .any).toFinset

theorem mem_unresolved {b : Block} {s : Scope} {name : Text} :
    name ∈ unresolved b s ↔ name ∈ ownNames b ∧ s.known name = .any := by
  rw [unresolved, List.mem_toFinset, List.mem_filter, decide_eq_true_eq]

theorem unresolved_subset {b b₁ : Block} {s s₁ : Scope} {P : Text → Prop} (hb : ownNames b = ownNames b₁)
    (hs : s.Refines P s₁) : unresolved b₁ s₁ ⊆ unresolved b s := by
  intro name hn
  rw [mem_unresolved] at hn ⊢
  exact ⟨hb ▸ hn.1, hs.known_of_known_eq_any hn.2⟩

open Classical in
/-- The unresolved names of a block whose types a run over it may learn. -/
noncomputable def pending (b : Block) (s : Scope) : Finset Text := (unresolved b s).filter (Learnable b s)

theorem mem_pending {b : Block} {s : Scope} {name : Text} :
    name ∈ pending b s ↔ name ∈ unresolved b s ∧ Learnable b s name := by
  classical
  exact Finset.mem_filter

theorem pending_subset {b b₁ : Block} {s s₁ : Scope} {P : Text → Prop} (hb : Rewrites Stmt.Alike b b₁)
    (hs : s.Refines P s₁) : pending b₁ s₁ ⊆ pending b s := by
  intro name hn
  rw [mem_pending] at hn ⊢
  exact ⟨unresolved_subset hb.ownNames_eq hs hn.1, hn.2.of_rewrites hb hs.typeOf?_of_any⟩

theorem card_pending_le (b : Block) (s : Scope) : (pending b s).card ≤ (unresolved b s).card :=
  Finset.card_le_card fun _ hn => (mem_pending.1 hn).1

/-- The names in the statements of a block that are bound to the wildcard. -/
def untyped (b : Block) (s : Scope) : Finset Text := ((names b).filter fun name => s.typeOf? name = some .any).toFinset

theorem mem_untyped {b : Block} {s : Scope} {name : Text} :
    name ∈ untyped b s ↔ name ∈ names b ∧ s.typeOf? name = some .any := by
  rw [untyped, List.mem_toFinset, List.mem_filter, decide_eq_true_eq]

/-- If all names are bound that a tree declares, types are learnt of names bound to the wildcard only. -/
theorem card_pending_le_untyped {b c : Block} {s : Scope} (hc : c ∈ everyBlock b)
    (hbound : ∀ {type name value}, .declare type name value ∈ statements b → (s.currentType? name).isSome) :
    (pending c s).card ≤ (untyped b s).card := by
  refine Finset.card_le_card fun name hn => ?_
  obtain ⟨hunresolved, -, hlearn⟩ := mem_pending.1 hn
  obtain ⟨hown, hknown⟩ := mem_unresolved.1 hunresolved
  have hname := names_subset (mem_statements_of_mem_everyBlock hc) (ownNames_subset c hown)
  refine mem_untyped.2 ⟨hname, ?_⟩
  rcases hlearn with ⟨type, value, hd⟩ | hany
  · obtain ⟨type', ht⟩ := Option.isSome_iff_exists.1 (hbound (mem_statements_of_mem_everyBlock hc hd))
    rw [Scope.known, ht, Option.getD_some] at hknown
    subst hknown
    exact Scope.typeOf?_of_currentType? ht
  · exact hany

theorem card_unresolved_le {b c : Block} (hc : c ∈ everyBlock b) (s : Scope) :
    (unresolved c s).card ≤ (names b).toFinset.card := by
  refine Finset.card_le_card fun name hn => ?_
  rw [List.mem_toFinset]
  exact names_subset (mem_statements_of_mem_everyBlock hc) (ownNames_subset c (mem_unresolved.1 hn).1)

end Block

namespace Typing

variable {o : Options} {b b₁ : Block} {s s₁ : Scope}

theorem rewrites_of_round {k : Nat} (h : (round (nested o) o.commitPolicy b s).result = .ok (k, b₁, s₁)) :
    Block.Rewrites Stmt.Alike b b₁ := by
  obtain ⟨_, _, hpass, -⟩ := round_eq_ok_iff.1 h
  exact pass_rewrites nested_rewrites hpass

theorem card_pending_lt {k : Nat} (h : (round (nested o) o.commitPolicy b s).result = .ok (k, b₁, s₁))
    (hk : k ≠ 0) : (Block.pending b₁ s₁).card < (Block.pending b s).card := by
  have hb := rewrites_of_round h
  have hs₁ := refines_of_round h
  obtain ⟨s₂, found, hpass, hcommit⟩ := round_eq_ok_iff.1 h
  obtain ⟨hs, hfound⟩ := refines_of_pass hpass
  obtain ⟨c, hc, hn, hn₁⟩ := exists_of_commit hcommit hk
  obtain ⟨hown, hlearn⟩ := hfound c hc
  have hunresolved := Block.mem_unresolved.2 ⟨hown, hs.known_of_known_eq_any hn⟩
  refine Finset.card_lt_card ?_
  rw [Finset.ssubset_iff_of_subset (Block.pending_subset hb hs₁)]
  refine ⟨c.name, ?_, ?_⟩
  · exact Block.mem_pending.2 ⟨hunresolved, hlearn⟩
  · exact fun h => hn₁ (Block.mem_unresolved.1 (Block.mem_pending.1 h).1).2

/-- Whether more rounds are allowed than any block of the tree has names to learn about. -/
private structure Suffices (o : Options) (b : Block) (s : Scope) : Prop where
  depth_pos : 0 < s.depth
  card_lt : ∀ c ∈ Block.everyBlock b, ((Block.pending c s).card : Int) < o.passLimit

private theorem Suffices.refines {P : Text → Prop} (h : Suffices o b s) (hs : s.Refines P s₁) : Suffices o b s₁ := by
  refine ⟨by rw [hs.depth_eq]; exact h.depth_pos, fun c hc => ?_⟩
  have := Finset.card_le_card (Block.pending_subset (.refl Stmt.Alike.refl c) hs)
  have := h.card_lt c hc
  omega

private theorem Suffices.inside (h : Suffices o b s) {t : Stmt} {d : Block} (ht : t ∈ b) (hd : d ∈ t.blocks) :
    Suffices o d s :=
  ⟨h.depth_pos, fun c hc => h.card_lt c (Block.mem_everyBlock_of_mem_blocks ht hd hc)⟩

private theorem Suffices.rewrites (h : Suffices o b s) (hb : Block.Rewrites Stmt.Alike b b₁) : Suffices o b₁ s := by
  refine ⟨h.depth_pos, fun c' hc' => ?_⟩
  obtain ⟨c, hc, hcc⟩ := hb.exists_of_mem_everyBlock hc'
  have := Finset.card_le_card (Block.pending_subset (s := s) hcc (.refl (P := fun _ => True)))
  have := h.card_lt c hc
  omega

private theorem settleBlocks_failsByMismatch {bs : List Block}
    (hi : ∀ d ∈ bs, Suffices o d s ∧ ∀ {s}, Suffices o d s → FailsByMismatch (nested o d s).result) :
    FailsByMismatch (settleBlocks (nested o) bs s).result := by
  induction bs generalizing s with
  | nil => exact .ok _
  | cons d rest ih =>
    rw [result_settleBlocks_cons]
    obtain ⟨hd, hfails⟩ := hi d (List.mem_cons_self ..)
    refine .bind (hfails hd) fun ⟨d', s₁⟩ h₁ => .bind (ih fun c hc => ?_) fun _ _ => .ok _
    obtain ⟨hc, hfails⟩ := hi c (List.mem_cons_of_mem _ hc)
    exact ⟨hc.refines (nested_refines h₁), hfails⟩

private theorem pass_failsByMismatch
    (hi : ∀ t ∈ b, ∀ d ∈ t.blocks, Suffices o d s ∧ ∀ {s}, Suffices o d s → FailsByMismatch (nested o d s).result) :
    FailsByMismatch (pass (nested o) b s).result := by
  induction b with
  | nil => exact .ok _
  | cons t rest ih =>
    rw [result_pass_cons]
    refine .bind (ih fun t ht => hi t (List.mem_cons_of_mem _ ht)) fun ⟨rest', s₁, found⟩ hrest => ?_
    refine .bind (examine_failsByMismatch s₁ t) fun ⟨t₁, proposed⟩ ht => ?_
    -- the scope has grown behind the statement, which leaves no more names to learn about
    refine .bind (settleBlocks_failsByMismatch fun d hd => ?_) fun _ _ => .ok _
    rw [(alike_of_examine ht).1] at hd
    obtain ⟨hd, hfails⟩ := hi t (List.mem_cons_self ..) d hd
    obtain ⟨hs, -⟩ := refines_of_pass hrest
    exact ⟨hd.refines hs, hfails⟩

private theorem settle_failsByMismatch {done remaining : Nat}
    (hi : ∀ d, Block.depth d < Block.depth b → ∀ {s}, Suffices o d s → FailsByMismatch (nested o d s).result)
    (h : Suffices o b s) (hr : (Block.pending b s).card < remaining) :
    FailsByMismatch (settle (nested o) o done remaining b s).result := by
  induction remaining generalizing done b s with
  | zero => exact absurd hr (Nat.not_lt_zero _)
  | succ remaining ih =>
    have hinside : ∀ t ∈ b, ∀ d ∈ t.blocks,
        Suffices o d s ∧ ∀ {s}, Suffices o d s → FailsByMismatch (nested o d s).result :=
      fun t ht d hd => ⟨h.inside ht hd, hi d (Block.depth_lt_of_mem ht hd)⟩
    rw [result_settle_succ]
    refine .bind ?_ fun ⟨k, b₁, s₁⟩ hround => ?_
    · rw [result_round]
      refine .bind (pass_failsByMismatch hinside) fun ⟨b₁, s₁, found⟩ hpass => ?_
      obtain ⟨hs, -⟩ := refines_of_pass hpass
      exact .bind (commit_failsByMismatch (h.refines hs).depth_pos) fun _ _ => .ok _
    · have hb := rewrites_of_round hround
      have hdepth := hb.depth_eq (fun _ _ => Stmt.Alike.depth_eq)
      have hs := refines_of_round hround
      simp only
      split
      · exact .ok _
      · rename_i hk
        -- one name less to learn about makes up for the round that is gone
        have := card_pending_lt hround hk
        exact ih (fun d hd => hi d (hdepth ▸ hd)) ((h.refines hs).rewrites hb) (by omega)

/-- If more rounds are allowed than any block of the tree has names to learn about, only disagreeing types are a failure. -/
theorem infer_failsByMismatch_of_pending (hs : 0 < s.depth)
    (hlimit : ∀ c ∈ Block.everyBlock b, ((Block.pending c s).card : Int) < o.passLimit) :
    FailsByMismatch (infer o b s).result := by
  have h : Suffices o b s := ⟨hs, hlimit⟩
  clear hs hlimit
  induction hd : Block.depth b using Nat.strongRecOn generalizing b s with
  | ind depth ih =>
    subst hd
    have := h.card_lt b (Block.mem_everyBlock_self b)
    rw [result_infer]
    refine settle_failsByMismatch ?_ h (by omega)
    intro d hd s h
    rw [nested, Logged.result_bind]
    exact .bind (ih _ hd h rfl) fun _ _ => .ok _

/-- If more rounds are allowed than any block of the tree has unresolved names, only disagreeing types are a failure. -/
theorem infer_failsByMismatch (hs : 0 < s.depth)
    (hlimit : ∀ c ∈ Block.everyBlock b, ((Block.unresolved c s).card : Int) < o.passLimit) :
    FailsByMismatch (infer o b s).result := by
  refine infer_failsByMismatch_of_pending hs fun c hc => ?_
  have := Block.card_pending_le c s
  have := hlimit c hc
  omega

theorem Run.le_card_pending {n : Nat} {b' : Block} {s' : Scope} (h : Run o n b s b' s') :
    n ≤ 1 + (Block.pending b s).card := by
  induction h with
  | stop => omega
  | again h hk _ ih =>
    have := card_pending_lt h hk
    omega

/-- If every block of the tree is allowed one round more than it has unresolved names, inference ends within so many
rounds, or types disagree; it never gives up, and never finds a name to have another type. -/
theorem infer_ends_within (hs : 0 < s.depth)
    (hlimit : ∀ c ∈ Block.everyBlock b, 1 + ((Block.unresolved c s).card : Int) ≤ o.passLimit) :
    Ends (fun r => r.1 ≤ 1 + (Block.unresolved b s).card) (fun e => ∃ m, e = .mismatch m) (infer o b s).result := by
  have hfails : FailsByMismatch (infer o b s).result := by
    refine infer_failsByMismatch hs fun c hc => ?_
    have := hlimit c hc
    omega
  cases h : (infer o b s).result with
  | error e => exact .error (hfails e h)
  | ok r =>
    obtain ⟨hrun, -⟩ := infer_eq_ok_iff.1 h
    have hrounds := hrun.le_card_pending
    have hcard := Block.card_pending_le b s
    apply Ends.ok
    omega

/-- Variables of unknown type. -/
def chainScope : Scope := ⟨[⟨.empty, .ofList [("a", .any), ("b", .any), ("c", .any)]⟩]⟩

/-- Every variable has the type of the one before, and two of them are declared in a block inside. -/
def chainBlock : Block :=
  [.declare .any "a" (some (.int 1)),
    .loop none [.declare .any "b" (some (.identifier "a")), .declare .any "c" (some (.identifier "b"))]]

def threeRounds : Options := { commitPolicy := .skipOne, passLimit := 3 }

/-- The block inside needs all three rounds that are allowed, and the outer one two. -/
theorem infer_ends_within_chain :
    (∃ b' s', (infer threeRounds chainBlock chainScope).result = .ok (2, b', s') ∧ s'.currentType? "c" = some .int) ∧
      Ends (fun r => r.1 ≤ 1 + (Block.unresolved chainBlock chainScope).card) (fun e => ∃ m, e = .mismatch m)
        (infer threeRounds chainBlock chainScope).result :=
  ⟨⟨_, _, rfl, rfl⟩, infer_ends_within (by decide) (by decide)⟩

end Typing

end MapScript
