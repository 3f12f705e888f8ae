import MapScript.Proofs.Typing.FixedPoint
import MapScript.Proofs.Typing.Termination

/-!
# Repeated inference

Inference that begins again with what it has made may change it once more, since a block inside is settled in the middle
of a round over the outer one. But a run that leaves the scope as it is makes a settled tree, and all runs behind it change
nothing. A run that changes the scope gives a type to a name of the tree that had none
(`card_untold_lt`), so it comes to that after at most as many runs as there are such names, or one of them fails
(`inferAgain_converges`).
-/

namespace MapScript

namespace Block

/-- The names in the statements of a block at any depth that have no concrete type. -/
def untold (b : Block) (s : Scope) : Finset Text := ((names b).filter fun name => s.known name = .any).toFinset

theorem mem_untold {b : Block} {s : Scope} {name : Text} : name ∈ untold b s ↔ name ∈ names b ∧ s.known name = .any := by
  rw [untold, List.mem_toFinset, List.mem_filter, decide_eq_true_eq]

theorem untold_subset {b b' : Block} {s s' : Scope} {P : Text → Prop} (hb : Rewrites Stmt.Alike b b')
    (hs : s.Refines P s') : untold b' s' ⊆ untold b s := by
  intro name hn
  rw [mem_untold] at hn ⊢
  exact ⟨hb.names_subset hn.1, hs.known_of_known_eq_any hn.2⟩

end Block

namespace Typing

/-- Infers the types of a block, then those of the result, and so on. -/
def inferAgain (o : Options) : Nat → Block → Scope → Logged Failure (Block × Scope)
  | 0, b, s => return (b, s)
  | k + 1, b, s => do
    let (_, b, s) ← infer o b s
    inferAgain o k b s

section

variable {o : Options} {b b' c : Block} {s s' e : Scope} {k m n : Nat}

theorem inferAgain_succ_eq_ok_iff : (inferAgain o (k + 1) b s).result = .ok (b', s') ↔
    ∃ n c e, (infer o b s).result = .ok (n, c, e) ∧ (inferAgain o k c e).result = .ok (b', s') := by
  rw [inferAgain]
  constructor
  · intro h
    obtain ⟨⟨n, c, e⟩, h₁, h⟩ := Logged.result_bind_eq_ok_iff.1 h
    exact ⟨n, c, e, h₁, h⟩
  · rintro ⟨n, c, e, h₁, h⟩
    exact Logged.result_bind_eq_ok_iff.2 ⟨_, h₁, h⟩

theorem inferAgain_add_eq_ok_iff : (inferAgain o (k + m) b s).result = .ok (b', s') ↔
    ∃ c e, (inferAgain o k b s).result = .ok (c, e) ∧ (inferAgain o m c e).result = .ok (b', s') := by
  induction k generalizing b s with
  | zero =>
    rw [Nat.zero_add]
    constructor
    · exact fun h => ⟨b, s, rfl, h⟩
    · rintro ⟨c, e, h, hm⟩
      cases h
      exact hm
  | succ k ih =>
    rw [Nat.succ_add, inferAgain_succ_eq_ok_iff]
    constructor
    · rintro ⟨n, b₁, s₁, hn, h⟩
      obtain ⟨c, e, hk, hm⟩ := ih.1 h
      exact ⟨c, e, inferAgain_succ_eq_ok_iff.2 ⟨n, b₁, s₁, hn, hk⟩, hm⟩
    · rintro ⟨c, e, h, hm⟩
      obtain ⟨n, b₁, s₁, hn, hk⟩ := inferAgain_succ_eq_ok_iff.1 h
      exact ⟨n, b₁, s₁, hn, ih.2 ⟨c, e, hk, hm⟩⟩

/-! ### Runs that change nothing -/

/-- What a run makes that leaves the scope as it is, is not changed by another one. -/
theorem infer_again_eq_self (h : (infer o b s).result = .ok (n, b', s)) : (infer o b' s).result = .ok (1, b', s) := by
  obtain ⟨hrun, hn⟩ := infer_eq_ok_iff.1 h
  exact (infer_eq_self_iff (Nat.le_trans hrun.pos hn)).2 (settled_of_run hrun).2

theorem inferAgain_eq_self (h : (infer o b s).result = .ok (1, b, s)) (m : Nat) :
    (inferAgain o m b s).result = .ok (b, s) := by
  induction m with
  | zero => rfl
  | succ m ih => exact inferAgain_succ_eq_ok_iff.2 ⟨1, b, s, h, ih⟩

/-! ### Runs that change the scope -/

/-- A run that changes the scope leaves fewer names without a type. -/
theorem card_untold_lt (h : (infer o b s).result = .ok (n, b', s')) (hs : s' ≠ s) :
    (Block.untold b' s').card < (Block.untold b s).card := by
  have hrefines := infer_refines h
  obtain ⟨name, hlearn, hn, hn'⟩ := hrefines.eq_or_exists.resolve_left hs
  refine Finset.card_lt_card ?_
  rw [Finset.ssubset_iff_of_subset (Block.untold_subset (infer_rewrites h) hrefines)]
  refine ⟨name, Block.mem_untold.2 ⟨hlearn.1, hn⟩, ?_⟩
  exact fun h => hn' (Block.mem_untold.1 h).2

/-- After at most as many runs as there are names without a type, the next one fails or leaves the scope as it is. -/
theorem exists_last_change (o : Options) (b : Block) (s : Scope) : ∃ k ≤ (Block.untold b s).card, ∃ c e,
    (inferAgain o k b s).result = .ok (c, e) ∧
      ((∃ f, (infer o c e).result = .error f) ∨ ∃ n c', (infer o c e).result = .ok (n, c', e)) := by
  induction hcard : (Block.untold b s).card using Nat.strongRecOn generalizing b s with
  | ind card ih =>
    subst hcard
    cases h : (infer o b s).result with
    | error f => exact ⟨0, Nat.zero_le _, b, s, rfl, .inl ⟨f, h⟩⟩
    | ok r =>
      obtain ⟨n, b', s'⟩ := r
      by_cases hs : s' = s
      · subst hs
        exact ⟨0, Nat.zero_le _, b, s', rfl, .inr ⟨n, b', h⟩⟩
      · have hlt := card_untold_lt h hs
        obtain ⟨k, hk, c, e, hagain, hlast⟩ := ih _ hlt b' s' rfl
        exact ⟨k + 1, by omega, c, e, inferAgain_succ_eq_ok_iff.2 ⟨n, b', s', h, hagain⟩, hlast⟩

/-- Repeated inference converges: all runs behind one that leaves the scope as it is do a single pass and change nothing;
and there is such a run within one more than there are names without a type, unless a run before it fails. -/
theorem inferAgain_converges (o : Options) (b : Block) (s : Scope) :
    (∀ k n c e c', (inferAgain o k b s).result = .ok (c, e) → (infer o c e).result = .ok (n, c', e) →
      ∀ m, (inferAgain o (k + 1 + m) b s).result = .ok (c', e) ∧ (infer o c' e).result = .ok (1, c', e)) ∧
    ∃ k < 1 + (Block.untold b s).card, ∃ c e, (inferAgain o k b s).result = .ok (c, e) ∧
      ((∃ f, (infer o c e).result = .error f) ∨ ∃ n c', (infer o c e).result = .ok (n, c', e)) := by
  constructor
  · intro k n c e c' hk h m
    have hself := infer_again_eq_self h
    have hnext : (inferAgain o (k + 1) b s).result = .ok (c', e) :=
      inferAgain_add_eq_ok_iff.2 ⟨c, e, hk, inferAgain_succ_eq_ok_iff.2 ⟨n, c', e, h, rfl⟩⟩
    exact ⟨inferAgain_add_eq_ok_iff.2 ⟨c', e, hnext, inferAgain_eq_self hself m⟩, hself⟩
  · obtain ⟨k, hk, c, e, h⟩ := exists_last_change o b s
    exact ⟨k, by omega, c, e, h⟩

end

/-- The first run learns the type of the variable in the block inside, and the second one gives it to the declaration
behind it; then nothing changes any more. -/
theorem inferAgain_converges_late : ∃ c e c', (inferAgain {} 1 lateBlock lateScope).result = .ok (c, e) ∧
    .declare .any "x" none ∈ Block.statements c ∧ .declare .bool "x" none ∈ Block.statements c' ∧
    ∀ m, (inferAgain {} (1 + 1 + m) lateBlock lateScope).result = .ok (c', e) ∧ (infer {} c' e).result = .ok (1, c', e) := by
  have hfirst : (inferAgain {} 1 lateBlock lateScope).result = .ok (lateBlock,
      ⟨[⟨.empty, .ofList [("x", .bool)]⟩, ⟨.empty, .ofList [("takes_bool", .native [.bool])]⟩]⟩) := rfl
  have hsecond := (inferAgain_converges {} lateBlock lateScope).1 1 1 _ _ _ hfirst rfl
  exact ⟨_, _, _, hfirst, .tail _ (.tail _ (.head _)), .tail _ (.tail _ (.head _)), hsecond⟩

end Typing

end MapScript
