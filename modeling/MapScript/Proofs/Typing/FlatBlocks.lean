import MapScript.Proofs.Typing.FixedPoint
import MapScript.Proofs.Typing.Termination

/-!
# Inference in flat blocks

A block is flat if no blocks lie inside its statements. While the statements of a flat block are examined the scope stays
as it is, so the last round begins in the scope in which the run ends (`Run.exists_last`), and the resulting block is
settled there. If candidates of unknown type are left out one by one, a settled block has no other candidates
(`Settled.type_eq_any`): whatever its statements could still tell about names of unknown type is of unknown type itself
(`infer_exhausts`).
-/

namespace MapScript

/-- What a statement tells about names of unknown type is of unknown type itself: the type and the value of a declaration,
the value of an assignment, and the parameter for an argument. -/
def Stmt.Exhausted (s : Scope) : Stmt → Prop
  | declare type name value => s.known name = .any → type = .any ∧ ∀ e ∈ value, e.type s = .any
  | assign name _ value => s.typeOf? name = some .any → value.type s = .any
  | call callee arguments _ => ∀ {method : Text} {convention : Convention} {parameters : List DataType},
    callee.lookup? s = some (method, .callable convention parameters) → ∀ {i : Nat} {name : Text} {p : DataType},
      arguments[i]? = some (.identifier name) → parameters[i]? = some p → s.typeOf? name = some .any → p = .any
  | ret | breakLoop | breakSwitch | label _ | goto _ | wait .. | branch .. | branchElse .. | loop .. | switch ..
  | thread .. =>
    True

/-- No blocks lie inside the statements of the block. -/
def Block.Flat (b : Block) : Prop := ∀ t ∈ b, t.blocks = []

theorem Block.Flat.of_rewrites {R : Stmt → Stmt → Prop} {b b' : Block} (hb : Block.Flat b) (h : Block.Rewrites R b b') :
    Block.Flat b' := by
  induction b generalizing b' with
  | nil =>
    cases h
    exact nofun
  | cons t rest ih =>
    cases h with
    | cons _ hblocks hrest =>
      rw [hb t (List.mem_cons_self ..), List.forall₂_nil_left_iff] at hblocks
      exact List.forall_mem_cons.2 ⟨hblocks, ih (fun t ht => hb t (List.mem_cons_of_mem _ ht)) hrest⟩

namespace Typing

section

variable {o : Options} {n : Nat} {b b' : Block} {s s' : Scope}

private theorem scope_eq_of_pass {found : List Candidate} (hb : Block.Flat b)
    (h : (pass (nested o) b s).result = .ok (b', s', found)) : s' = s := by
  induction b generalizing b' s' found with
  | nil => exact (pass_nil_eq_ok_iff.1 h).2.1
  | cons t rest ih =>
    obtain ⟨rest', s₁, found', t₁, proposed, bs, hrest, ht, hbs, -, -⟩ := pass_cons_eq_ok_iff.1 h
    rw [(alike_of_examine ht).1, hb t (List.mem_cons_self ..)] at hbs
    obtain rfl := (settleBlocks_nil_eq_ok_iff.1 hbs).2
    exact ih (fun t ht => hb t (List.mem_cons_of_mem _ ht)) hrest

/-- The last round over a flat block begins in the scope in which it ends. -/
theorem Run.exists_last (hb : Block.Flat b) (h : Run o n b s b' s') : ∃ c, Run o 1 c s' b' s' := by
  induction h with
  | @stop b b' s s' h =>
    obtain ⟨s₁, found, hpass, hcommit⟩ := round_eq_ok_iff.1 h
    obtain rfl := scope_eq_of_pass hb hpass
    obtain rfl := (commit_count_eq_zero_iff hcommit).1 rfl
    exact ⟨b, .stop h⟩
  | again h _ _ ih => exact ih (hb.of_rewrites (rewrites_of_round h))

/-! ### Candidates of settled blocks -/

private theorem exists_of_examineAll {found : List Candidate} (h : examineAll s b = .ok (b', found)) {t : Stmt}
    (ht : t ∈ b') : ∃ t₀ proposed, examine s t₀ = .ok (t, proposed) ∧ ∀ c ∈ proposed, c ∈ found := by
  induction b generalizing b' found with
  | nil =>
    cases h
    cases ht
  | cons u rest ih =>
    obtain ⟨rest', found', u', proposed, hrest, hu, rfl, rfl⟩ := examineAll_cons_eq_ok_iff.1 h
    rcases List.mem_cons.1 ht with rfl | ht
    · exact ⟨u, proposed, hu, fun c hc => List.mem_append_right _ hc⟩
    · obtain ⟨t₀, proposed', ht₀, hfound⟩ := ih hrest ht
      exact ⟨t₀, proposed', ht₀, fun c hc => List.mem_append_left _ (hfound c hc)⟩

/-- A name with a concrete candidate would get a type, so in a settled block only names that have one do. -/
private theorem type_eq_any_of_commit {found : List Candidate} (h : commit .skipOne found s = .ok (0, s)) {c : Candidate}
    (hc : c ∈ found) (hname : s.known c.name = .any) : c.type = .any := by
  by_contra htype
  obtain ⟨_, -, hknown, -⟩ := known_of_commit h hc htype
  exact hknown hname

/-- A statement of a settled block proposes nothing but the wildcard for a name of unknown type. -/
theorem Settled.type_eq_any (h : Settled .skipOne s b) {t : Stmt} (ht : t ∈ b) :
    ∃ proposed, examine s t = .ok (t, proposed) ∧ ∀ c ∈ proposed, s.known c.name = .any → c.type = .any := by
  obtain ⟨found, hall, hcommit⟩ := h b (Block.mem_everyBlock_self b)
  obtain ⟨t₀, proposed, ht₀, hfound⟩ := exists_of_examineAll hall ht
  exact ⟨proposed, examine_idem ht₀, fun c hc => type_eq_any_of_commit hcommit (hfound c hc)⟩

private theorem known_of_typeOf? {name : Text} (h : s.typeOf? name = some .any) : s.known name = .any := by
  by_contra hk
  rw [Scope.typeOf?_of_known hk, Option.some.injEq] at h
  exact hk h

/-- A statement that proposes nothing but the wildcard for names of unknown type is exhausted. -/
private theorem exhausted_of_examine {t t' : Stmt} {proposed : List Candidate} (h : examine s t = .ok (t', proposed))
    (hall : ∀ c ∈ proposed, s.known c.name = .any → c.type = .any) : t.Exhausted s := by
  cases t with
  | declare type name value =>
    intro hk
    rcases examineDeclaration_cases h with ⟨-, -, rfl⟩ | ⟨hne, -⟩
    · have hc := hall _ (List.mem_singleton_self _)
      by_cases htype : type = .any
      · subst htype
        refine ⟨rfl, fun e he => ?_⟩
        rw [Option.mem_def.1 he] at hc
        exact hc hk
      · rw [if_neg fun h => htype (DataType.isWildcard_iff.1 h)] at hc
        exact absurd (hc hk) htype
    · exact absurd hk hne
  | assign name operator value =>
    intro hn
    rw [examine, Except.ok.injEq] at h
    rcases examineAssignment_cases s name operator value with ⟨-, he⟩ | ⟨hne, -⟩
    · rw [he] at h
      cases h
      exact hall _ (List.mem_singleton_self _) (known_of_typeOf? hn)
    · exact absurd hn hne
  | call callee arguments kind =>
    intro method convention parameters hlookup i name p hargument hparameter hn
    rw [examine, Except.ok.injEq, examineCall, hlookup] at h
    cases h
    have hzip : (parameters.zip arguments)[i]? = some (p, .identifier name) := by
      rw [List.getElem?_zip_eq_some]
      exact ⟨hparameter, hargument⟩
    have huse : useOf? s p (.identifier name) = some ⟨name, p, .use⟩ := if_pos hn
    exact hall _ (List.mem_filterMap.2 ⟨_, List.mem_of_getElem? hzip, huse⟩) (known_of_typeOf? hn)
  | _ => trivial

/-! ### The result of a run -/

/-- If a candidate of unknown type does not end the batch, inference leaves nothing behind in a flat block that could tell
the type of a name. -/
theorem infer_exhausts (hpolicy : o.commitPolicy = .skipOne) (hb : Block.Flat b)
    (h : (infer o b s).result = .ok (n, b', s')) : ∀ t ∈ b', t.Exhausted s' := by
  intro t ht
  obtain ⟨c, hlast⟩ := (infer_eq_ok_iff.1 h).1.exists_last hb
  obtain ⟨-, hsettled⟩ := settled_of_run hlast
  rw [hpolicy] at hsettled
  obtain ⟨proposed, hexamine, hall⟩ := hsettled.type_eq_any ht
  exact exhausted_of_examine hexamine hall

end

/-- Variables that have the types of others, where nothing tells the type of the last one. -/
def flatBlock : Block :=
  [.declare .any "a" (some (.int 1)), .declare .any "b" (some (.identifier "a")), .assign "c" "=" (.identifier "d")]

/-- The chain is resolved in three rounds. -/
theorem infer_exhausts_chain : ∃ b' s', (infer threeRounds flatBlock chainScope).result = .ok (3, b', s') ∧
    .declare .int "b" (some (.identifier "a")) ∈ b' ∧ ∀ t ∈ b', t.Exhausted s' := by
  have hflat : Block.Flat flatBlock := by simp [Block.Flat, flatBlock, Stmt.blocks]
  have hrun : (infer threeRounds flatBlock chainScope).result = .ok (3,
      [.declare .int "a" (some (.int 1)), .declare .int "b" (some (.identifier "a")), .assign "c" "=" (.identifier "d")],
      ⟨[⟨.empty, .ofList [("a", .int), ("b", .int), ("c", .any)]⟩]⟩) := rfl
  exact ⟨_, _, hrun, .tail _ (.head _), infer_exhausts rfl hflat hrun⟩

end Typing

end MapScript
