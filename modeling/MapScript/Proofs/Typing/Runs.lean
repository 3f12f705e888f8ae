import MapScript.Proofs.Typing.Commit
import MapScript.Proofs.Typing.Rules
import MapScript.Typing.Infer

/-!
# Runs of type inference

A run over a block is a sequence of rounds of which the last one, and no other, commits nothing (`Run`). The inference
of a block with a result is such a run of no more rounds than allowed (`infer_eq_ok_iff`), where the blocks inside the
statements are inferred in their turn (`nested`).

A run changes no more than the rules do (`infer_rewrites`). What one round of every block does and what carries over from
round to round is thus what inference does (`infer_induction`). In particular it keeps what every rule keeps of a statement
(`infer_keeps`).
-/

namespace MapScript.Typing

/-! ### Blocks inside a statement -/

section

variable (inner : Block → Scope → Logged Failure (Block × Scope))

/-- Settles blocks in order. -/
def settleBlocks : List Block → Scope → Logged Failure (List Block × Scope)
  | [], s => return ([], s)
  | b :: rest, s => do
    let (b, s) ← inner b s
    let (rest, s) ← settleBlocks rest s
    return (b :: rest, s)

theorem result_settleBlocks_cons (b : Block) (rest : List Block) (s : Scope) :
    (settleBlocks inner (b :: rest) s).result = (inner b s).result >>= fun (b, s) =>
      (settleBlocks inner rest s).result >>= fun (rest, s) => .ok (b :: rest, s) := by
  simp only [settleBlocks, Logged.result_bind, Logged.result_pure]

private theorem result_settleArms (arms : List Arm) (s : Scope) :
    (settleArms inner arms s).result = (settleBlocks inner (arms.map Arm.body) s).result >>= fun (bs, s) =>
      .ok (List.zipWith (fun (a : Arm) body => ⟨a.operator, a.values, body⟩) arms bs, s) := by
  induction arms generalizing s with
  | nil => rfl
  | cons a rest ih =>
    obtain ⟨operator, values, body⟩ := a
    rw [settleArms, List.map_cons, result_settleBlocks_cons]
    simp only [Logged.result_bind, Logged.result_pure, ih]
    cases (inner body s).result with
    | error e => rfl
    | ok r =>
      obtain ⟨body', s₁⟩ := r
      simp only [bind_assoc]
      rfl

/-- The blocks inside a statement are settled in order and put back. -/
theorem result_settleInside (t : Stmt) (s : Scope) :
    (settleInside inner t s).result = (settleBlocks inner t.blocks s).result >>= fun (bs, s) =>
      .ok (t.withBlocks bs, s) := by
  cases t with
  | branch condition body | loop count body | thread child body =>
    rw [settleInside, Stmt.blocks, result_settleBlocks_cons]
    simp only [Logged.result_bind, Logged.result_pure]
    cases (inner body s).result <;> rfl
  | branchElse condition body otherwise =>
    rw [settleInside, Stmt.blocks, result_settleBlocks_cons]
    simp only [Logged.result_bind, Logged.result_pure]
    cases (inner body s).result with
    | error e => rfl
    | ok r =>
      obtain ⟨body', s₁⟩ := r
      show _ = ((settleBlocks inner [otherwise] s₁).result >>= _) >>= _
      rw [result_settleBlocks_cons]
      show (inner otherwise s₁).result >>= _ = _
      cases (inner otherwise s₁).result <;> rfl
  | switch value arms =>
    rw [settleInside, Stmt.blocks]
    simp only [Logged.result_bind, Logged.result_pure, result_settleArms, bind_assoc]
    rfl
  | _ => rfl

/-! ### Passes, rounds and runs, step by step -/

theorem result_pass_cons (t : Stmt) (rest : Block) (s : Scope) :
    (pass inner (t :: rest) s).result = (pass inner rest s).result >>= fun (rest, s, found) =>
      examine s t >>= fun (t, proposed) => (settleBlocks inner t.blocks s).result >>= fun (bs, s) =>
        .ok (t.withBlocks bs :: rest, s, found ++ proposed) := by
  rw [pass]
  simp only [Logged.result_bind, Logged.result_pure, Logged.result_liftM, result_settleInside, bind_assoc]
  rfl

theorem result_round (policy : CommitPolicy) (b : Block) (s : Scope) :
    (round inner policy b s).result = (pass inner b s).result >>= fun (b, s, candidates) =>
      commit policy candidates s >>= fun (committed, s) => .ok (committed, b, s) := by
  rw [round]
  simp only [Logged.result_bind, Logged.result_pure, Logged.result_liftM]

theorem result_settle_succ (o : Options) (done remaining : Nat) (b : Block) (s : Scope) :
    (settle inner o done (remaining + 1) b s).result =
      (round inner o.commitPolicy b s).result >>= fun (committed, b, s) =>
        if committed = 0 then .ok (done + 1, b, s) else (settle inner o (done + 1) remaining b s).result := by
  rw [settle]
  simp only [Logged.result_bind, Logged.result_report]
  congr 1
  funext ⟨committed, b₁, s₁⟩
  show (Logged.result (if committed = 0 then _ else _)) = _
  split <;> rfl

variable {inner}

theorem settleBlocks_nil_eq_ok_iff {s s' : Scope} {bs : List Block} :
    (settleBlocks inner [] s).result = .ok (bs, s') ↔ bs = [] ∧ s' = s := by
  constructor
  · intro h; cases h
    exact ⟨rfl, rfl⟩
  · rintro ⟨rfl, rfl⟩
    rfl

theorem settleBlocks_cons_eq_ok_iff {b : Block} {rest bs : List Block} {s s' : Scope} :
    (settleBlocks inner (b :: rest) s).result = .ok (bs, s') ↔ ∃ b' s₁ rest', (inner b s).result = .ok (b', s₁) ∧
      (settleBlocks inner rest s₁).result = .ok (rest', s') ∧ bs = b' :: rest' := by
  rw [result_settleBlocks_cons]
  constructor
  · intro h
    obtain ⟨⟨b', s₁⟩, h₁, h⟩ := bind_eq_ok_iff.1 h
    obtain ⟨⟨rest', s₂⟩, h₂, h⟩ := bind_eq_ok_iff.1 h
    cases h
    exact ⟨b', s₁, rest', h₁, h₂, rfl⟩
  · rintro ⟨b', s₁, rest', h₁, h₂, rfl⟩
    exact bind_eq_ok_iff.2 ⟨_, h₁, bind_eq_ok_iff.2 ⟨_, h₂, rfl⟩⟩

theorem settleBlocks_append_eq_ok_iff {front back bs : List Block} {s s' : Scope} :
    (settleBlocks inner (front ++ back) s).result = .ok (bs, s') ↔ ∃ front' s₁ back',
      (settleBlocks inner front s).result = .ok (front', s₁) ∧
      (settleBlocks inner back s₁).result = .ok (back', s') ∧ bs = front' ++ back' := by
  induction front generalizing s bs with
  | nil =>
    constructor
    · exact fun h => ⟨[], s, bs, rfl, h, rfl⟩
    · rintro ⟨_, _, back', h, h', rfl⟩
      obtain ⟨rfl, rfl⟩ := settleBlocks_nil_eq_ok_iff.1 h
      exact h'
  | cons b front ih =>
    rw [List.cons_append, settleBlocks_cons_eq_ok_iff]
    constructor
    · rintro ⟨b', s₁, rest', h₁, h, rfl⟩
      obtain ⟨front', s₂, back', h₂, h₃, rfl⟩ := ih.1 h
      exact ⟨b' :: front', s₂, back', settleBlocks_cons_eq_ok_iff.2 ⟨b', s₁, front', h₁, h₂, rfl⟩, h₃, rfl⟩
    · rintro ⟨_, s₂, back', h, h₃, rfl⟩
      obtain ⟨b', s₁, front', h₁, h₂, rfl⟩ := settleBlocks_cons_eq_ok_iff.1 h
      exact ⟨b', s₁, front' ++ back', h₁, ih.2 ⟨front', s₂, back', h₂, h₃, rfl⟩, rfl⟩

theorem length_of_settleBlocks {bs bs' : List Block} {s s' : Scope}
    (h : (settleBlocks inner bs s).result = .ok (bs', s')) : bs'.length = bs.length := by
  induction bs generalizing s bs' with
  | nil => rw [(settleBlocks_nil_eq_ok_iff.1 h).1]
  | cons b rest ih =>
    obtain ⟨_, _, rest', -, hrest, rfl⟩ := settleBlocks_cons_eq_ok_iff.1 h
    rw [List.length_cons, List.length_cons, ih hrest]

theorem pass_nil_eq_ok_iff {s s' : Scope} {b : Block} {found : List Candidate} :
    (pass inner [] s).result = .ok (b, s', found) ↔ b = [] ∧ s' = s ∧ found = [] := by
  constructor
  · intro h; cases h
    exact ⟨rfl, rfl, rfl⟩
  · rintro ⟨rfl, rfl, rfl⟩
    rfl

theorem pass_cons_eq_ok_iff {t : Stmt} {rest b : Block} {s s' : Scope} {all : List Candidate} :
    (pass inner (t :: rest) s).result = .ok (b, s', all) ↔ ∃ rest' s₁ found t₁ proposed bs,
      (pass inner rest s).result = .ok (rest', s₁, found) ∧ examine s₁ t = .ok (t₁, proposed) ∧
      (settleBlocks inner t₁.blocks s₁).result = .ok (bs, s') ∧ b = t₁.withBlocks bs :: rest' ∧
      all = found ++ proposed := by
  rw [result_pass_cons]
  constructor
  · intro h
    obtain ⟨⟨rest', s₁, found⟩, h₁, h⟩ := bind_eq_ok_iff.1 h
    obtain ⟨⟨t₁, proposed⟩, h₂, h⟩ := bind_eq_ok_iff.1 h
    obtain ⟨⟨bs, s₂⟩, h₃, h⟩ := bind_eq_ok_iff.1 h
    cases h
    exact ⟨rest', s₁, found, t₁, proposed, bs, h₁, h₂, h₃, rfl, rfl⟩
  · rintro ⟨rest', s₁, found, t₁, proposed, bs, h₁, h₂, h₃, rfl, rfl⟩
    exact bind_eq_ok_iff.2 ⟨_, h₁, bind_eq_ok_iff.2 ⟨_, h₂, bind_eq_ok_iff.2 ⟨_, h₃, rfl⟩⟩⟩

theorem round_eq_ok_iff {policy : CommitPolicy} {b b' : Block} {s s' : Scope} {k : Nat} :
    (round inner policy b s).result = .ok (k, b', s') ↔ ∃ s₁ found,
      (pass inner b s).result = .ok (b', s₁, found) ∧ commit policy found s₁ = .ok (k, s') := by
  rw [result_round]
  constructor
  · intro h
    obtain ⟨⟨b₁, s₁, found⟩, h₁, h⟩ := bind_eq_ok_iff.1 h
    obtain ⟨⟨k₁, s₂⟩, h₂, h⟩ := bind_eq_ok_iff.1 h
    cases h
    exact ⟨s₁, found, h₁, h₂⟩
  · rintro ⟨s₁, found, h₁, h₂⟩
    exact bind_eq_ok_iff.2 ⟨_, h₁, bind_eq_ok_iff.2 ⟨_, h₂, rfl⟩⟩

end

/-! ### Rewriting -/

section

variable {inner : Block → Scope → Logged Failure (Block × Scope)} {b b' : Block} {s s' : Scope}

private theorem settleBlocks_keeps {R : Stmt → Stmt → Prop} {bs bs' : List Block}
    (hi : ∀ d ∈ bs, ∀ {s d' s'}, (inner d s).result = .ok (d', s') → Block.Rewrites R d d')
    (h : (settleBlocks inner bs s).result = .ok (bs', s')) : List.Forall₂ (Block.Rewrites R) bs bs' := by
  induction bs generalizing s bs' with
  | nil =>
    obtain ⟨rfl, -⟩ := settleBlocks_nil_eq_ok_iff.1 h
    exact .nil
  | cons b rest ih =>
    obtain ⟨_, _, _, hb, hrest, rfl⟩ := settleBlocks_cons_eq_ok_iff.1 h
    exact .cons (hi b (List.mem_cons_self ..) hb) (ih (fun d hd => hi d (List.mem_cons_of_mem _ hd)) hrest)

/-- What a rule keeps of a statement, a pass keeps of all, if it is kept in the blocks inside. -/
theorem pass_keeps {R : Stmt → Stmt → Prop} {all : List Candidate}
    (hrule : ∀ {s t t' found}, examine s t = .ok (t', found) → R t.head t'.head)
    (hi : ∀ t ∈ b, ∀ d ∈ t.blocks, ∀ {s d' s'}, (inner d s).result = .ok (d', s') → Block.Rewrites R d d')
    (h : (pass inner b s).result = .ok (b', s', all)) : Block.Rewrites R b b' := by
  induction b generalizing b' s' all with
  | nil =>
    obtain ⟨rfl, -⟩ := pass_nil_eq_ok_iff.1 h
    exact .nil
  | cons t rest ih =>
    obtain ⟨rest', s₁, found, t₁, proposed, bs, hrest, ht, hbs, rfl, -⟩ := pass_cons_eq_ok_iff.1 h
    have hblocks := (alike_of_examine ht).1
    have hlength := length_of_settleBlocks hbs
    refine .cons ?_ ?_ (ih (fun u hu => hi u (List.mem_cons_of_mem _ hu)) hrest)
    · rw [Stmt.head_withBlocks hlength]
      exact hrule ht
    · rw [Stmt.blocks_withBlocks hlength, ← hblocks]
      exact settleBlocks_keeps (fun d hd => hi t (List.mem_cons_self ..) d (hblocks ▸ hd)) hbs

theorem pass_rewrites {all : List Candidate}
    (hi : ∀ {b s b' s'}, (inner b s).result = .ok (b', s') → Block.Rewrites Stmt.Alike b b')
    (h : (pass inner b s).result = .ok (b', s', all)) : Block.Rewrites Stmt.Alike b b' :=
  pass_keeps (fun ht => (alike_of_examine ht).2) (fun _ _ _ _ => hi) h

private theorem settle_rewrites {o : Options} {done remaining n : Nat}
    (hi : ∀ {b s b' s'}, (inner b s).result = .ok (b', s') → Block.Rewrites Stmt.Alike b b')
    (h : (settle inner o done remaining b s).result = .ok (n, b', s')) : Block.Rewrites Stmt.Alike b b' := by
  induction remaining generalizing done b s with
  | zero => cases h
  | succ remaining ih =>
    rw [result_settle_succ] at h
    obtain ⟨⟨k, b₁, s₁⟩, hround, h⟩ := bind_eq_ok_iff.1 h
    obtain ⟨_, _, hpass, -⟩ := round_eq_ok_iff.1 hround
    simp only at h
    split at h
    · cases h
      exact pass_rewrites hi hpass
    · exact .trans (fun _ _ _ => .trans) (pass_rewrites hi hpass) (ih h)

private theorem rewrites_of_pure (h : (pure (b, s) : Logged Failure (Block × Scope)).result = .ok (b', s')) :
    Block.Rewrites Stmt.Alike b b' := by
  cases h
  exact .refl (fun _ => .refl _) b

private theorem rewrites_of_snd {x : Logged Failure (Nat × Block × Scope)}
    (hx : ∀ {n b' s'}, x.result = .ok (n, b', s') → Block.Rewrites Stmt.Alike b b')
    (h : (do return (← x).2 : Logged Failure (Block × Scope)).result = .ok (b', s')) :
    Block.Rewrites Stmt.Alike b b' := by
  obtain ⟨⟨n, b₁, s₁⟩, h₁, h⟩ := Logged.result_bind_eq_ok_iff.1 h
  cases h
  exact hx h₁

private theorem inferWithin_rewrites {o : Options} {depth n : Nat}
    (h : (inferWithin o depth b s).result = .ok (n, b', s')) : Block.Rewrites Stmt.Alike b b' := by
  induction depth generalizing b s b' s' n with
  | zero => exact settle_rewrites rewrites_of_pure h
  | succ depth ih => exact settle_rewrites (rewrites_of_snd ih) h

theorem infer_rewrites {o : Options} {n : Nat} (h : (infer o b s).result = .ok (n, b', s')) :
    Block.Rewrites Stmt.Alike b b' :=
  inferWithin_rewrites h

end

/-! ### Runs -/

section

variable {i₁ i₂ : Block → Scope → Logged Failure (Block × Scope)}

private theorem settleBlocks_congr {bs : List Block} (h : ∀ b ∈ bs, ∀ s, (i₁ b s).result = (i₂ b s).result)
    (s : Scope) : (settleBlocks i₁ bs s).result = (settleBlocks i₂ bs s).result := by
  induction bs generalizing s with
  | nil => rfl
  | cons b rest ih =>
    rw [result_settleBlocks_cons, result_settleBlocks_cons, h b (List.mem_cons_self ..)]
    refine bind_congr_of_ok ?_
    rintro ⟨b', s₁⟩ -
    simp only [ih fun b hb => h b (List.mem_cons_of_mem _ hb)]

private theorem pass_congr {b : Block} (h : ∀ d, Block.depth d < Block.depth b → ∀ s, (i₁ d s).result = (i₂ d s).result)
    (s : Scope) : (pass i₁ b s).result = (pass i₂ b s).result := by
  induction b generalizing s with
  | nil => rfl
  | cons t rest ih =>
    rw [Block.depth] at h
    rw [result_pass_cons, result_pass_cons, ih fun d hd => h d (by omega)]
    refine bind_congr_of_ok ?_
    rintro ⟨rest', s₁, found⟩ -
    refine bind_congr_of_ok ?_
    rintro ⟨t₁, proposed⟩ ht
    have hblocks : ∀ d ∈ t₁.blocks, ∀ s, (i₁ d s).result = (i₂ d s).result := by
      intro d hd
      rw [(alike_of_examine ht).1] at hd
      have := Stmt.depth_lt_of_mem_blocks hd
      exact h d (by omega)
    simp only [settleBlocks_congr hblocks]

private theorem settle_congr {o : Options} {b : Block}
    (hi : ∀ {b s b' s'}, (i₁ b s).result = .ok (b', s') → Block.Rewrites Stmt.Alike b b')
    (h : ∀ d, Block.depth d < Block.depth b → ∀ s, (i₁ d s).result = (i₂ d s).result) (done remaining : Nat) (s : Scope) :
    (settle i₁ o done remaining b s).result = (settle i₂ o done remaining b s).result := by
  induction remaining generalizing done b s with
  | zero => rfl
  | succ remaining ih =>
    rw [result_settle_succ, result_settle_succ, result_round, result_round, pass_congr h]
    simp only [bind_assoc]
    refine bind_congr_of_ok ?_
    rintro ⟨b₁, s₁, found⟩ hpass
    refine bind_congr_of_ok ?_
    rintro ⟨k, s₂⟩ -
    rw [← pass_congr h] at hpass
    -- the next round finds blocks of the same depth inside
    have hdepth := (pass_rewrites hi hpass).depth_eq (fun _ _ => Stmt.Alike.depth_eq)
    have hrest := ih (fun d hd => h d (hdepth ▸ hd)) (done + 1) s₂
    show (if k = 0 then _ else (settle i₁ o (done + 1) remaining b₁ s₂).result) =
      if k = 0 then _ else (settle i₂ o (done + 1) remaining b₁ s₂).result
    rw [hrest]

end

/-- The inference of a block that lies inside a statement. -/
def nested (o : Options) (b : Block) (s : Scope) : Logged Failure (Block × Scope) := do
  return (← infer o b s).2

private theorem inferWithin_eq (o : Options) (depth : Nat) {b : Block} (h : Block.depth b ≤ depth) (s : Scope) :
    (inferWithin o depth b s).result = (settle (nested o) o 0 o.passLimit.toNat b s).result := by
  induction depth using Nat.strongRecOn generalizing b s with
  | ind depth ih =>
    cases depth with
    | zero =>
      rw [inferWithin]
      exact settle_congr rewrites_of_pure (fun d hd => absurd hd (by omega)) _ _ _
    | succ depth =>
      rw [inferWithin]
      -- both bounds suffice for the blocks inside, which are less deep
      refine settle_congr (rewrites_of_snd inferWithin_rewrites) ?_ _ _ _
      intro d hd s
      rw [nested, infer, Logged.result_bind, Logged.result_bind, ih depth (by omega) (by omega),
        ih (Block.depth d) (by omega) (Nat.le_refl _)]

theorem result_infer (o : Options) (b : Block) (s : Scope) :
    (infer o b s).result = (settle (nested o) o 0 o.passLimit.toNat b s).result :=
  inferWithin_eq o _ (Nat.le_refl _) s

/-- A run of `n` rounds over a block: the last one commits nothing, the others something. -/
inductive Run (o : Options) : Nat → Block → Scope → Block → Scope → Prop
  | stop {b b' : Block} {s s' : Scope} : (round (nested o) o.commitPolicy b s).result = .ok (0, b', s') →
    Run o 1 b s b' s'
  | again {k n : Nat} {b b₁ b' : Block} {s s₁ s' : Scope} :
    (round (nested o) o.commitPolicy b s).result = .ok (k, b₁, s₁) → k ≠ 0 → Run o n b₁ s₁ b' s' →
    Run o (n + 1) b s b' s'

section

variable {o : Options} {b b' : Block} {s s' : Scope} {n : Nat}

private theorem settle_eq_ok_iff {done remaining : Nat} :
    (settle (nested o) o done remaining b s).result = .ok (n, b', s') ↔
      ∃ m, Run o m b s b' s' ∧ m ≤ remaining ∧ n = done + m := by
  induction remaining generalizing done b s with
  | zero =>
    constructor
    · nofun
    · rintro ⟨m, hrun, hm, -⟩
      cases hrun <;> omega
  | succ remaining ih =>
    rw [result_settle_succ]
    constructor
    · intro h
      obtain ⟨⟨k, b₁, s₁⟩, hround, h⟩ := bind_eq_ok_iff.1 h
      simp only at h
      split at h
      · rename_i hk
        cases h
        subst hk
        exact ⟨1, .stop hround, by omega, rfl⟩
      · rename_i hk
        obtain ⟨m, hrun, hm, rfl⟩ := ih.1 h
        exact ⟨m + 1, .again hround hk hrun, by omega, by omega⟩
    · rintro ⟨m, hrun, hm, rfl⟩
      refine bind_eq_ok_iff.2 ?_
      cases hrun with
      | stop hround => exact ⟨_, hround, rfl⟩
      | again hround hk hrun =>
        refine ⟨_, hround, ?_⟩
        simp only [if_neg hk]
        exact ih.2 ⟨_, hrun, by omega, by omega⟩

/-- Inference has a result just when there is a run of no more rounds than allowed. -/
theorem infer_eq_ok_iff : (infer o b s).result = .ok (n, b', s') ↔ Run o n b s b' s' ∧ n ≤ o.passLimit.toNat := by
  rw [result_infer, settle_eq_ok_iff]
  constructor
  · rintro ⟨m, hrun, hm, hn⟩
    rw [Nat.zero_add] at hn
    exact hn ▸ ⟨hrun, hm⟩
  · rintro ⟨hrun, hn⟩
    exact ⟨n, hrun, hn, (Nat.zero_add n).symm⟩

theorem nested_eq_ok_iff : (nested o b s).result = .ok (b', s') ↔ ∃ n, (infer o b s).result = .ok (n, b', s') := by
  constructor
  · intro h
    obtain ⟨⟨n, b₁, s₁⟩, h₁, h⟩ := Logged.result_bind_eq_ok_iff.1 h
    cases h
    exact ⟨n, h₁⟩
  · rintro ⟨n, h⟩
    exact Logged.result_bind_eq_ok_iff.2 ⟨_, h, rfl⟩

theorem nested_rewrites (h : (nested o b s).result = .ok (b', s')) : Block.Rewrites Stmt.Alike b b' := by
  obtain ⟨n, h⟩ := nested_eq_ok_iff.1 h
  exact infer_rewrites h

/-- What a round does, if the inference of the blocks inside does it, and what carries over from round to round, is what
inference does. -/
theorem infer_induction {motive : Block → Scope → Block → Scope → Prop}
    (round : ∀ {b b' s s' k}, (∀ d, Block.depth d < Block.depth b → ∀ {d' s s'},
        (nested o d s).result = .ok (d', s') → motive d s d' s') →
      (Typing.round (nested o) o.commitPolicy b s).result = .ok (k, b', s') → motive b s b' s')
    (trans : ∀ {b b₁ b' s s₁ s'}, motive b s b₁ s₁ → motive b₁ s₁ b' s' → motive b s b' s')
    (h : (infer o b s).result = .ok (n, b', s')) : motive b s b' s' := by
  obtain ⟨hrun, -⟩ := infer_eq_ok_iff.1 h
  clear h
  induction hd : Block.depth b using Nat.strongRecOn generalizing b b' s s' n with
  | ind depth ih =>
    subst hd
    have hinside : ∀ d, Block.depth d < Block.depth b → ∀ {d' s s'}, (nested o d s).result = .ok (d', s') →
        motive d s d' s' := by
      intro d hd d' s s' h
      obtain ⟨m, h⟩ := nested_eq_ok_iff.1 h
      exact ih _ hd (infer_eq_ok_iff.1 h).1 rfl
    clear ih
    -- now along the rounds, where the blocks inside keep their depth
    induction hrun with
    | stop h => exact round hinside h
    | again h _ _ ih =>
      obtain ⟨_, _, hpass, -⟩ := round_eq_ok_iff.1 h
      have hdepth := (pass_rewrites nested_rewrites hpass).depth_eq (fun _ _ => Stmt.Alike.depth_eq)
      exact trans (round hinside h) (ih fun d hd => hinside d (hdepth ▸ hd))

/-- What every rule keeps of a statement, and what carries over from one change to the next, inference keeps. -/
theorem infer_keeps {R : Stmt → Stmt → Prop} (htrans : ∀ t u v, R t u → R u v → R t v)
    (hrule : ∀ {s t t' found}, examine s t = .ok (t', found) → R t.head t'.head)
    (h : (infer o b s).result = .ok (n, b', s')) : Block.Rewrites R b b' := by
  refine infer_induction (motive := fun b _ b' _ => Block.Rewrites R b b') ?_ (fun h₁ h₂ => h₁.trans htrans h₂) h
  intro b b' s s' k hi hround
  obtain ⟨_, _, hpass, -⟩ := round_eq_ok_iff.1 hround
  exact pass_keeps hrule (fun t ht d hd => hi d (Block.depth_lt_of_mem ht hd)) hpass

end

end MapScript.Typing
