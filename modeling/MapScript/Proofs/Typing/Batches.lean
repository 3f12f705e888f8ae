import Mathlib.Data.Set.Card
import MapScript.Proofs.Typing.Commit

/-!
# Batches of types

The candidates of a batch are committed one behind the other. A name without a concrete type in the innermost layer gets one
at its first candidate, and any further candidate finds it typed. Hence the names that get a type are known before (`wanted`),
and each of them is counted once. The types come from all candidates, also from those that are left out of the batch.
Main statement: `commit_batch`.
-/

namespace MapScript.Typing

/-- The names of candidates that have no concrete type in the innermost layer. -/
def wanted (cs : List Candidate) (s : Scope) : Finset Text :=
  (cs.map Candidate.name).toFinset.filter fun name => s.known name = .any

/-- What a policy makes of candidates: the names of its batch that are unbound or a wildcard in the innermost layer get their
merged types, nothing else changes, and the count is the number of these names. -/
structure CommitsBatch (policy : CommitPolicy) (cs : List Candidate) (s : Scope) (k : Nat) (s' : Scope) : Prop where
  changes_iff : ∀ name, s'.currentType? name ≠ s.currentType? name ↔
    (∃ c ∈ batch policy cs, c.name = name) ∧ (s.currentType? name = none ∨ s.currentType? name = some .any)
  merged : ∃ resolved, resolve cs = .ok resolved ∧ ∀ name, s'.currentType? name ≠ s.currentType? name →
    ∃ type, resolved.get? name = some type ∧ s'.currentType? name = some type
  outer_eq : s'.layers.tail = s.layers.tail
  addresses_eq : s'.layers.map Layer.addresses = s.layers.map Layer.addresses
  count_eq : Set.encard { name | s'.currentType? name ≠ s.currentType? name } = k
  count_eq_zero_iff : k = 0 ↔ s' = s

section

variable {policy : CommitPolicy} {resolved : Table Text DataType} {cs rest : List Candidate} {c : Candidate}
  {s s₁ s' : Scope} {k : Nat} {name : Text} {type : DataType}

/-! ### Names without a type -/

theorem mem_wanted : name ∈ wanted cs s ↔ (∃ c ∈ cs, c.name = name) ∧ s.known name = .any := by
  rw [wanted, Finset.mem_filter, List.mem_toFinset, List.mem_map]

/-- A name that gets a type is not met again. -/
theorem wanted_cons_of_bindName (hk : s.known c.name = .any) (htype : type ≠ .any)
    (hb : s.bindName c.name type = .ok s₁) :
    wanted (c :: rest) s = insert c.name (wanted rest s₁) ∧ c.name ∉ wanted rest s₁ := by
  have hknown := Scope.known_bindName hb
  constructor
  · ext name
    rw [Finset.mem_insert, mem_wanted, mem_wanted, hknown, List.exists_mem_cons_iff]
    by_cases hname : c.name = name
    · subst hname
      simp [hk]
    · rw [if_neg hname, or_iff_right hname, or_iff_right (Ne.symm hname)]
  · rw [mem_wanted, hknown, if_pos rfl]
    exact fun h => htype h.2

theorem wanted_cons_of_known (hk : s.known c.name ≠ .any) : wanted (c :: rest) s = wanted rest s := by
  ext name
  rw [mem_wanted, mem_wanted, List.exists_mem_cons_iff]
  refine and_congr_left fun hname => or_iff_right ?_
  rintro rfl
  exact hk hname

/-! ### What is committed -/

namespace Commits

theorem card_wanted (h : Commits resolved cs s k s') : (wanted cs s).card = k := by
  induction h with
  | done => rfl
  | binds hk _ htype hb _ ih =>
    obtain ⟨hwanted, hnew⟩ := wanted_cons_of_bindName hk htype hb
    rw [hwanted, Finset.card_insert_of_notMem hnew, ih]
  | keeps hk _ _ ih => rw [wanted_cons_of_known hk, ih]

theorem currentType?_ne_iff (h : Commits resolved cs s k s') :
    s'.currentType? name ≠ s.currentType? name ↔ name ∈ wanted cs s := by
  constructor
  · intro hne
    obtain ⟨hc, hk, -⟩ := (h.refines.currentType?_eq_or name).resolve_left hne
    exact mem_wanted.2 ⟨hc, hk⟩
  · intro hname hsame
    obtain ⟨⟨c, hc, rfl⟩, hk⟩ := mem_wanted.1 hname
    rw [Scope.known, ← hsame] at hk
    exact (h.known_eq hc).1 hk

end Commits

end

/-- Committing gives the names of the batch that have no concrete type in the innermost layer the types that all candidates
merge to, and counts them. -/
theorem commit_batch {policy : CommitPolicy} {cs : List Candidate} {s s' : Scope} {k : Nat}
    (h : commit policy cs s = .ok (k, s')) : CommitsBatch policy cs s k s' := by
  have hrefines := commit_refines h
  obtain ⟨resolved, hresolved, hcommits⟩ := commits_of_commit h
  exact {
    changes_iff := fun name => by rw [hcommits.currentType?_ne_iff, mem_wanted, Scope.known_eq_any_iff]
    merged := by
      refine ⟨resolved, hresolved, fun name hne => ?_⟩
      obtain ⟨⟨c, hc, rfl⟩, -⟩ := mem_wanted.1 (hcommits.currentType?_ne_iff.1 hne)
      obtain ⟨hconcrete, hget⟩ := hcommits.known_eq hc
      exact ⟨_, hget, Scope.currentType?_of_known hconcrete⟩
    outer_eq := hrefines.tail_eq
    addresses_eq := hrefines.addresses_eq
    count_eq := by
      simp only [hcommits.currentType?_ne_iff, Finset.setOfPred_mem]
      rw [Set.encard_coe_eq_coe_finsetCard, hcommits.card_wanted]
    count_eq_zero_iff := commit_count_eq_zero_iff h }

/-- A value that is used as truth value only behind a candidate of unknown type, and another name there. -/
private def cutShort : List Candidate := [⟨"x", .int, .value⟩, ⟨"y", .any, .value⟩, ⟨"z", .float, .use⟩, ⟨"x", .bool, .use⟩]

theorem commit_batch_cutShort :
    ∃ s', commit .skipRemaining cutShort .base = .ok (1, s') ∧ s'.currentType? "x" = some .bool ∧
      s'.currentType? "z" = none ∧ CommitsBatch .skipRemaining cutShort .base 1 s' :=
  ⟨_, rfl, rfl, rfl, commit_batch rfl⟩

end MapScript.Typing
