import Mathlib.Data.List.TakeWhile
import MapScript.Proofs.Outcome
import MapScript.Proofs.Scope.Refinement
import MapScript.Typing.Commit

/-!
# What a pass learns

Merging candidates and committing them. The merge gives a concrete type to every name that has a concrete candidate
(`exists_get?_of_resolve`).

A policy says which candidates belong to the batch: all concrete ones, or only those in front of the first one of unknown
type (`batch`). They are committed one behind the other (`Commits`), and in the end all their names have their merged types
(`Commits.known_eq`). Committing refines the scope (`commit_refines`), and the count says whether it changed
(`commit_count_eq_zero_iff`).
-/

namespace MapScript.Typing

/-! ### Merging -/

/-- Whether a candidate is the concrete one of a name. -/
def Candidate.tells (name : Text) (c : Candidate) : Bool := c.name = name && !c.type.isWildcard

theorem Candidate.tells_iff {name : Text} {c : Candidate} : c.tells name = true ↔ c.name = name ∧ c.type ≠ .any := by
  simp [Candidate.tells, ← Bool.not_eq_true]

private theorem prevailing_cases {c d r : Candidate} (h : prevailing c d = .ok r) : r = c ∨ r = d := by
  unfold prevailing at h
  split at h
  · exact .inl (Except.ok.inj h).symm
  · split at h
    · exact .inr (Except.ok.inj h).symm
    · cases h

/-- A further candidate is left out, or a concrete one is chosen for its name: the candidate itself or, if there is one,
the one chosen so far. -/
private theorem choose_cases {chosen chosen' : Table Text Candidate} {c : Candidate} (h : choose chosen c = .ok chosen') :
    (c.type = .any ∨ ∃ d, chosen.get? c.name = some d) ∧ chosen' = chosen ∨
    ∃ r, c.type ≠ .any ∧ (r = c ∨ chosen.get? c.name = some r) ∧ chosen' = chosen.insert c.name r := by
  unfold choose at h
  by_cases hc : c.type = .any
  · rw [if_pos (DataType.isWildcard_iff.2 hc)] at h
    cases h
    exact .inl ⟨.inl hc, rfl⟩
  · rw [if_neg (fun h => hc (DataType.isWildcard_iff.1 h))] at h
    split at h
    · cases h
      exact .inr ⟨c, hc, .inl rfl, rfl⟩
    · rename_i d hd
      split at h
      · cases h
        exact .inl ⟨.inr ⟨d, hd⟩, rfl⟩
      · obtain ⟨r, hr, h⟩ := bind_eq_ok_iff.1 h
        cases h
        refine .inr ⟨r, hc, ?_, rfl⟩
        rcases prevailing_cases hr with rfl | rfl
        · exact .inr hd
        · exact .inl rfl

/-- What the candidates chosen from those in `seen` are: concrete, and one for every name that has a concrete candidate. -/
private structure Represents (seen : List Candidate) (chosen : Table Text Candidate) : Prop where
  concrete : ∀ {name r}, chosen.get? name = some r → r.type ≠ .any
  exists_of_mem : ∀ {c}, c ∈ seen → c.type ≠ .any → ∃ r, chosen.get? c.name = some r

private theorem Represents.nil : Represents [] .empty := ⟨nofun, nofun⟩

private theorem Represents.keep {seen : List Candidate} {chosen : Table Text Candidate} {c : Candidate}
    (hr : Represents seen chosen) (hc : c.type = .any ∨ ∃ d, chosen.get? c.name = some d) :
    Represents (seen ++ [c]) chosen := by
  refine ⟨hr.concrete, ?_⟩
  intro c' hc' hne
  rcases List.mem_append.1 hc' with hc' | hc'
  · exact hr.exists_of_mem hc' hne
  · rw [List.mem_singleton.1 hc'] at hne ⊢
    exact hc.resolve_left hne

private theorem Represents.insert {seen : List Candidate} {chosen : Table Text Candidate} {c r : Candidate}
    (hr : Represents seen chosen) (hc : r.type ≠ .any) : Represents (seen ++ [c]) (chosen.insert c.name r) := by
  refine ⟨?_, ?_⟩
  · intro name r' hg
    rw [Table.get?_insert] at hg
    split at hg
    · cases hg; exact hc
    · exact hr.concrete hg
  · intro c' hc' hne
    rw [Table.get?_insert]
    split
    · exact ⟨r, rfl⟩
    · rename_i hcn
      rcases List.mem_append.1 hc' with hc' | hc'
      · exact hr.exists_of_mem hc' hne
      · exact absurd (congrArg Candidate.name (List.mem_singleton.1 hc')).symm hcn

private theorem Represents.choose {seen : List Candidate} {chosen chosen' : Table Text Candidate} {c : Candidate}
    (hr : Represents seen chosen) (h : choose chosen c = .ok chosen') : Represents (seen ++ [c]) chosen' := by
  rcases choose_cases h with ⟨hc, rfl⟩ | ⟨r, hc, rfl | hd, rfl⟩
  · exact hr.keep hc
  · exact hr.insert hc
  · exact hr.insert (hr.concrete hd)

private theorem Represents.foldlM {cs seen : List Candidate} {chosen chosen' : Table Text Candidate}
    (hr : Represents seen chosen) (h : cs.foldlM Typing.choose chosen = .ok chosen') :
    Represents (seen ++ cs) chosen' := by
  induction cs generalizing seen chosen with
  | nil =>
    cases h
    rwa [List.append_nil]
  | cons c cs ih =>
    rw [List.foldlM_cons] at h
    obtain ⟨chosen₁, h₁, h⟩ := bind_eq_ok_iff.1 h
    have := ih (hr.choose h₁) h
    rwa [List.append_assoc] at this

theorem resolve_ne_any {cs : List Candidate} {resolved : Table Text DataType} (h : resolve cs = .ok resolved)
    {name : Text} {type : DataType} (hg : resolved.get? name = some type) : type ≠ .any := by
  obtain ⟨chosen, hc, h⟩ := bind_eq_ok_iff.1 h
  cases h
  rw [Table.get?_mapValues] at hg
  obtain ⟨r, hr, rfl⟩ := Option.map_eq_some_iff.1 hg
  exact (Represents.nil.foldlM hc).concrete hr

/-- A name with a concrete candidate has a merged type. -/
theorem exists_get?_of_resolve {cs : List Candidate} {resolved : Table Text DataType} (h : resolve cs = .ok resolved)
    {c : Candidate} (hm : c ∈ cs) (hc : c.type ≠ .any) : ∃ type, resolved.get? c.name = some type ∧ type ≠ .any := by
  have hne : ∀ {name type}, resolved.get? name = some type → type ≠ .any := resolve_ne_any h
  obtain ⟨chosen, hchosen, h⟩ := bind_eq_ok_iff.1 h
  cases h
  obtain ⟨r, hr⟩ := (Represents.nil.foldlM hchosen).exists_of_mem (List.mem_append_right _ hm) hc
  have hget : (chosen.mapValues Candidate.type).get? c.name = some r.type := by
    rw [Table.get?_mapValues, hr, Option.map_some]
  exact ⟨r.type, hget, hne hget⟩

private theorem choose_failsByMismatch (chosen : Table Text Candidate) (c : Candidate) :
    FailsByMismatch (choose chosen c) := by
  unfold choose
  split
  · exact .ok _
  · split
    · exact .ok _
    · split
      · exact .ok _
      · refine .bind ?_ fun _ _ => .ok _
        unfold prevailing
        split
        · exact .ok _
        · split
          · exact .ok _
          · exact .mismatch _

theorem resolve_failsByMismatch (cs : List Candidate) : FailsByMismatch (resolve cs) := by
  refine .bind ?_ fun _ _ => .ok _
  generalize (Table.empty : Table Text Candidate) = chosen
  induction cs generalizing chosen with
  | nil => exact .ok _
  | cons c cs ih =>
    rw [List.foldlM_cons]
    exact .bind (choose_failsByMismatch chosen c) fun _ _ => ih _

/-! ### Committing -/

theorem refineName_of_known {s : Scope} {name : Text} (h : s.known name = .any) (type : DataType) :
    s.refineName name type = s.bindName name type := by
  obtain ⟨_ | ⟨layer, outer⟩⟩ := s
  · rfl
  · rw [Scope.known, Scope.currentType?, List.head?_cons, Option.bind_some] at h
    simp only [Scope.refineName]
    split
    · rename_i previous hp
      rw [hp, Option.getD_some] at h
      rw [if_pos (.inl (DataType.isWildcard_iff.2 h))]
    · rfl

/-- The candidates that a policy commits. -/
def batch : CommitPolicy → List Candidate → List Candidate
  | .skipOne, cs => cs.filter fun c => !c.type.isWildcard
  | .skipRemaining, cs => cs.takeWhile fun c => !c.type.isWildcard

/-- Committing candidates one behind the other, all of them concrete: a name gets its merged type if it has no concrete type
in the innermost layer, and has the merged type already otherwise. -/
inductive Commits (resolved : Table Text DataType) : List Candidate → Scope → Nat → Scope → Prop
  | done {s : Scope} : Commits resolved [] s 0 s
  | binds {c : Candidate} {rest : List Candidate} {s s₁ s' : Scope} {type : DataType} {k : Nat} :
    s.known c.name = .any → resolved.get? c.name = some type → type ≠ .any → s.bindName c.name type = .ok s₁ →
    Commits resolved rest s₁ k s' → Commits resolved (c :: rest) s (k + 1) s'
  | keeps {c : Candidate} {rest : List Candidate} {s s' : Scope} {k : Nat} :
    s.known c.name ≠ .any → resolved.get? c.name = some (s.known c.name) → Commits resolved rest s k s' →
    Commits resolved (c :: rest) s k s'

section

variable {policy : CommitPolicy} {resolved : Table Text DataType} {cs rest : List Candidate} {c : Candidate}
  {s s' : Scope} {k : Nat}

/-! #### The batch of a policy -/

private theorem not_isWildcard_iff : (!c.type.isWildcard) = true ↔ c.type ≠ .any := by
  rw [Bool.not_eq_true', ← Bool.not_eq_true, DataType.isWildcard_iff]

theorem batch_nil (policy : CommitPolicy) : batch policy [] = [] := by
  cases policy <;> rfl

theorem batch_cons_of_ne_any (policy : CommitPolicy) (hc : c.type ≠ .any) (rest : List Candidate) :
    batch policy (c :: rest) = c :: batch policy rest := by
  have hconcrete := not_isWildcard_iff.2 hc
  cases policy <;> simp [batch, hconcrete]

theorem batch_skipOne_of_any (hc : c.type = .any) (rest : List Candidate) :
    batch .skipOne (c :: rest) = batch .skipOne rest := by
  simp [batch, DataType.isWildcard_iff.2 hc]

theorem batch_skipRemaining_of_any (hc : c.type = .any) (rest : List Candidate) :
    batch .skipRemaining (c :: rest) = [] := by
  simp [batch, DataType.isWildcard_iff.2 hc]

theorem of_mem_batch (h : c ∈ batch policy cs) : c ∈ cs ∧ c.type ≠ .any := by
  rw [← not_isWildcard_iff]
  cases policy with
  | skipOne => exact List.mem_filter.1 h
  | skipRemaining =>
    exact ⟨(List.takeWhile_sublist _).mem h, List.mem_takeWhile_imp (p := fun c : Candidate => !c.type.isWildcard) h⟩

theorem mem_batch_skipOne (hm : c ∈ cs) (hc : c.type ≠ .any) : c ∈ batch .skipOne cs :=
  List.mem_filter.2 ⟨hm, not_isWildcard_iff.2 hc⟩

/-- A candidate is of unknown type, or its name gets a type, or it has the type that the candidate tells. -/
private theorem commitEach_cons_cases (h : commitEach policy resolved (c :: rest) s = .ok (k, s')) :
    c.type = .any ∧ policy = .skipRemaining ∧ k = 0 ∧ s' = s ∨
    c.type = .any ∧ policy = .skipOne ∧ commitEach policy resolved rest s = .ok (k, s') ∨
    c.type ≠ .any ∧ s.known c.name = .any ∧ (∃ s₁ k₁,
      s.bindName c.name ((resolved.get? c.name).getD c.type) = .ok s₁ ∧
      commitEach policy resolved rest s₁ = .ok (k₁, s') ∧ k = k₁ + 1) ∨
    c.type ≠ .any ∧ s.known c.name ≠ .any ∧ (s.known c.name).unify ((resolved.get? c.name).getD c.type) ≠ none ∧
      commitEach policy resolved rest s = .ok (k, s') := by
  simp only [commitEach.eq_def policy resolved (c :: rest) s] at h
  by_cases hc : c.type = .any
  · rw [if_pos (DataType.isWildcard_iff.2 hc)] at h
    cases policy with
    | skipRemaining => cases h; exact .inl ⟨hc, rfl, rfl, rfl⟩
    | skipOne => exact .inr (.inl ⟨hc, rfl, h⟩)
  · rw [if_neg (fun h => hc (DataType.isWildcard_iff.1 h))] at h
    change (if (s.known c.name).isWildcard then _ else _) = _ at h
    by_cases hk : s.known c.name = .any
    · rw [if_pos (DataType.isWildcard_iff.2 hk), refineName_of_known hk] at h
      obtain ⟨s₁, h₁, h⟩ := bind_eq_ok_iff.1 h
      obtain ⟨⟨k₁, s₂⟩, h₂, h⟩ := bind_eq_ok_iff.1 h
      cases h
      exact .inr (.inr (.inl ⟨hc, hk, s₁, k₁, h₁, h₂, rfl⟩))
    · rw [if_neg (fun h => hk (DataType.isWildcard_iff.1 h))] at h
      change (if ((s.known c.name).unify _).isNone then _ else _) = _ at h
      split at h
      · cases h
      · rename_i hu
        exact .inr (.inr (.inr ⟨hc, hk, fun h => hu (Option.isNone_iff_eq_none.2 h), h⟩))

/-- Committing looks only at the candidates of the batch. -/
theorem commits_of_commitEach
    (hmerged : ∀ c ∈ cs, c.type ≠ .any → ∃ type, resolved.get? c.name = some type ∧ type ≠ .any)
    (h : commitEach policy resolved cs s = .ok (k, s')) : Commits resolved (batch policy cs) s k s' := by
  induction cs generalizing s k with
  | nil =>
    cases h
    rw [batch_nil]
    exact .done
  | cons c rest ih =>
    obtain ⟨hhead, hrest⟩ := List.forall_mem_cons.1 hmerged
    rcases commitEach_cons_cases h with ⟨hc, rfl, rfl, rfl⟩ | ⟨hc, rfl, h⟩ | ⟨hc, hk, s₁, k₁, hb, hcs, rfl⟩ |
      ⟨hc, hk, hunify, h⟩
    · -- the candidate ends the batch
      rw [batch_skipRemaining_of_any hc]
      exact .done
    · -- the candidate is left out of the batch
      rw [batch_skipOne_of_any hc]
      exact ih hrest h
    · obtain ⟨type, hget, htype⟩ := hhead hc
      rw [hget, Option.getD_some] at hb
      rw [batch_cons_of_ne_any policy hc]
      exact .binds hk hget htype hb (ih hrest hcs)
    · -- of two concrete types that agree, one is the other
      obtain ⟨type, hget, htype⟩ := hhead hc
      rw [hget, Option.getD_some] at hunify
      have hsame : s.known c.name = type := by
        by_contra hne
        exact hunify (DataType.unify_eq_none_iff.2 ⟨hk, htype, hne⟩)
      rw [batch_cons_of_ne_any policy hc]
      exact .keeps hk (by rw [hget, hsame]) (ih hrest h)

theorem commits_of_commit (h : commit policy cs s = .ok (k, s')) :
    ∃ resolved, resolve cs = .ok resolved ∧ Commits resolved (batch policy cs) s k s' := by
  obtain ⟨resolved, hr, h⟩ := bind_eq_ok_iff.1 h
  exact ⟨resolved, hr, commits_of_commitEach (fun _ => exists_get?_of_resolve hr) h⟩

/-! #### What is committed -/

namespace Commits

theorem refines (h : Commits resolved cs s k s') : s.Refines (fun name => ∃ c ∈ cs, c.name = name) s' := by
  have hmono : ∀ {c : Candidate} {rest : List Candidate} {s s' : Scope},
      s.Refines (fun name => ∃ d ∈ rest, d.name = name) s' → s.Refines (fun name => ∃ d ∈ c :: rest, d.name = name) s' :=
    fun h => h.mono fun _ _ ⟨d, hd, hname⟩ => ⟨d, List.mem_cons_of_mem _ hd, hname⟩
  induction h with
  | done => exact .refl
  | @binds c rest s s₁ s' type k hk _ htype hb _ ih =>
    have hstep : s.Refines (fun name => ∃ d ∈ c :: rest, d.name = name) s₁ :=
      .step .refl ⟨c, List.mem_cons_self .., rfl⟩ hk htype hb
    exact hstep.trans (hmono ih)
  | keeps _ _ _ ih => exact hmono ih

/-- In the end all names of the batch have their merged types. -/
theorem known_eq (h : Commits resolved cs s k s') (hm : c ∈ cs) :
    s'.known c.name ≠ .any ∧ resolved.get? c.name = some (s'.known c.name) := by
  induction h with
  | done => cases hm
  | @binds d rest s s₁ s' type k hk hget htype hb hrest ih =>
    rcases List.mem_cons.1 hm with rfl | hm
    · have hknown : s₁.known c.name = type := by
        rw [Scope.known_bindName hb, if_pos rfl]
      rw [hrest.refines.known_eq (by rwa [hknown]), hknown]
      exact ⟨htype, hget⟩
    · exact ih hm
  | keeps hk hget hrest ih =>
    rcases List.mem_cons.1 hm with rfl | hm
    · rw [hrest.refines.known_eq hk]
      exact ⟨hk, hget⟩
    · exact ih hm

theorem eq_of_count_eq_zero (h : Commits resolved cs s k s') (hk : k = 0) : s' = s := by
  induction h with
  | done => rfl
  | binds => cases hk
  | keeps _ _ _ ih => exact ih hk

theorem exists_of_count_ne_zero (h : Commits resolved cs s k s') (hk : k ≠ 0) :
    ∃ c ∈ cs, s.known c.name = .any ∧ s'.known c.name ≠ .any := by
  have hall : ∀ c ∈ cs, s'.known c.name ≠ .any := fun c hc => (h.known_eq hc).1
  induction h with
  | done => exact absurd rfl hk
  | binds hn => exact ⟨_, List.mem_cons_self .., hn, hall _ (List.mem_cons_self ..)⟩
  | keeps _ _ _ ih =>
    obtain ⟨c, hc, hn⟩ := ih hk (List.forall_mem_cons.1 hall).2
    exact ⟨c, List.mem_cons_of_mem _ hc, hn⟩

end Commits

/-- Committing gives concrete types to names of candidates, where they have none. -/
theorem commit_refines (h : commit policy cs s = .ok (k, s')) :
    s.Refines (fun name => ∃ c ∈ cs, c.tells name = true) s' := by
  obtain ⟨resolved, -, h⟩ := commits_of_commit h
  refine h.refines.mono ?_
  rintro name - ⟨c, hc, rfl⟩
  obtain ⟨hm, hne⟩ := of_mem_batch hc
  exact ⟨c, hm, Candidate.tells_iff.2 ⟨rfl, hne⟩⟩

theorem exists_of_commit (h : commit policy cs s = .ok (k, s')) (hk : k ≠ 0) :
    ∃ c ∈ cs, s.known c.name = .any ∧ s'.known c.name ≠ .any := by
  obtain ⟨resolved, -, h⟩ := commits_of_commit h
  obtain ⟨c, hc, hn⟩ := h.exists_of_count_ne_zero hk
  exact ⟨c, (of_mem_batch hc).1, hn⟩

/-- Nothing is committed just when the scope stays as it is. -/
theorem commit_count_eq_zero_iff (h : commit policy cs s = .ok (k, s')) : k = 0 ↔ s' = s := by
  constructor
  · obtain ⟨resolved, -, h⟩ := commits_of_commit h
    exact h.eq_of_count_eq_zero
  · rintro rfl
    by_contra hk
    obtain ⟨c, -, hn, hn'⟩ := exists_of_commit h hk
    exact hn' hn

/-- If no candidate ends the batch, every name with a concrete candidate has its merged type afterwards. -/
theorem known_of_commit (h : commit .skipOne cs s = .ok (k, s')) (hm : c ∈ cs) (hc : c.type ≠ .any) :
    ∃ resolved, resolve cs = .ok resolved ∧ s'.known c.name ≠ .any ∧ resolved.get? c.name = some (s'.known c.name) := by
  obtain ⟨resolved, hr, h⟩ := commits_of_commit h
  exact ⟨resolved, hr, h.known_eq (mem_batch_skipOne hm hc)⟩

private theorem commitEach_failsByMismatch (hs : 0 < s.depth) :
    FailsByMismatch (commitEach policy resolved cs s) := by
  induction cs generalizing s with
  | nil => exact .ok _
  | cons c rest ih =>
    simp only [commitEach.eq_def policy resolved (c :: rest) s]
    split
    · split
      · exact .ok _
      · exact ih hs
    · split
      · rename_i hk
        have hk := DataType.isWildcard_iff.1 hk
        obtain ⟨s₁, h₁⟩ := Scope.exists_bindName hs c.name ((resolved.get? c.name).getD c.type)
        rw [refineName_of_known hk, h₁]
        refine .bind (.ok _) ?_
        rintro _ ⟨⟩
        exact .bind (ih (by rwa [Scope.depth_bindName h₁])) fun _ _ => .ok _
      · split
        · exact .mismatch _
        · exact ih hs

theorem commit_failsByMismatch (hs : 0 < s.depth) : FailsByMismatch (commit policy cs s) := by
  exact .bind (resolve_failsByMismatch cs) fun _ _ => commitEach_failsByMismatch hs

end

end MapScript.Typing
