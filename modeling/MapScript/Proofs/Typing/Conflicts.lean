import MapScript.Proofs.Typing.Merging
import MapScript.Proofs.Typing.Passes
import MapScript.Proofs.Typing.Termination

/-!
# Conflicting uses

Calls at two places of a tree conflict if they pass one variable where different types are meant. Conflicting uses are
reported if both of them count (`mismatch_of_conflict`). A use counts unless one of three things happens before or when
the first pass over its block comes to the call: the callee has got another meaning, the variable has got another type, or
a value or declaration of the same type hides the use in the merge, since a later use of another type prevails over it.
`conflicts_unreported` has an input for each.
-/

namespace MapScript.Typing

/-- A call that passes the variable `x` where its callee means the type `type`. -/
def Uses (s : Scope) (x : Text) (type : DataType) : Stmt → Prop
  | .call callee arguments _ => ∃ name convention parameters,
    callee.lookup? s = some (name, .callable convention parameters) ∧
      (type, .identifier x) ∈ parameters.zip arguments
  | _ => False

/-- The scope binds `x` to the wildcard, and means different types by it in the calls at two places of the tree. -/
structure Conflict (b : Block) (s : Scope) (x : Text) (p₁ : Place) (type₁ : DataType) (p₂ : Place) (type₂ : DataType) :
    Prop where
  unresolved : s.typeOf? x = some .any
  first : ∃ t, Block.at? b p₁ = some t ∧ Uses s x type₁ t
  second : ∃ t, Block.at? b p₂ = some t ∧ Uses s x type₂ t
  first_ne_any : type₁ ≠ .any
  second_ne_any : type₂ ≠ .any
  ne : type₁ ≠ type₂

/-- The use of `x` at a place counts, if the first pass that comes by it does: then the callee means the type, and `x` has
it already, or is unresolved and the use is not hidden among the candidates of the pass when these are merged. -/
def Counts (o : Options) (b : Block) (s : Scope) (x : Text) (p : Place) (type : DataType) : Prop :=
  ∀ t e r, Examined o FirstRound b s p t e r → Uses e x type t ∧
    (e.typeOf? x = some type ∨ e.typeOf? x = some .any ∧ ∀ c s' all resolved, r = .ok (c, s', all) →
      resolve all = .ok resolved → ∃ front back, all = front ++ ⟨x, type, .use⟩ :: back ∧
        ¬Hidden front back ⟨x, type, .use⟩)

section

variable {o : Options} {n : Nat} {b b' : Block} {s s' : Scope} {x : Text} {type : DataType} {p : Place}

/-- A use that counts tells the type that the variable has in the end. -/
theorem known_of_counts (hp : o.commitPolicy = .skipOne) (h : (infer o b s).result = .ok (n, b', s'))
    (hx : s.typeOf? x = some (s.known x)) (htype : type ≠ .any) (ht : ∃ t, Block.at? b p = some t)
    (hc : Counts o b s x p type) : s'.known x = type := by
  have hrun := (infer_eq_ok_iff.1 h).1
  obtain ⟨t, ht⟩ := ht
  obtain ⟨e, r, hexamined⟩ := exists_examined_of_at? hrun ht
  obtain ⟨-, hcounts⟩ := hc t e r hexamined
  obtain ⟨front, rest, rest', s₁, found, hpass, -, hrest, rfl⟩ := hexamined
  obtain ⟨hs₁, k, c', s₃, hround, hs₃⟩ := hpass.exists_firstRound hrun
  obtain ⟨s₂, all, hall, hcommit⟩ := round_eq_ok_iff.1 hround
  rcases hcounts with hx₁ | ⟨-, hfound⟩
  · -- the type is known when the pass comes to the call, and it stays
    have hknown := (hs₁.trans (grows_of_pass hrest)).typeOf?_eq_known hx
    rw [hx₁, Option.some.injEq] at hknown
    obtain ⟨_, _, _, _, _, bs, _, _, _, hrest', -, hbs, hfront, -, -⟩ := pass_at_eq_ok_iff.1 hall
    rw [hrest] at hrest'
    cases hrest'
    have hend := (grows_of_settleBlocks hbs).trans
      ((grows_of_pass hfront).trans ((commit_refines hcommit).grows.trans hs₃))
    rw [hend.known_eq (by rwa [← hknown]), ← hknown]
  · -- the use is committed at the end of the pass, or agrees with what has been committed in the meantime
    rw [hp] at hcommit
    obtain ⟨resolved, hresolved, hcommits⟩ := commits_of_commit hcommit
    obtain ⟨before, behind, rfl, hhidden⟩ := hfound _ _ _ _ hall hresolved
    have hmem : (⟨x, type, .use⟩ : Candidate) ∈ before ++ ⟨x, type, .use⟩ :: behind :=
      List.mem_append_right _ (List.mem_cons_self ..)
    obtain ⟨hconcrete, hknown⟩ := hcommits.known_eq (mem_batch_skipOne hmem htype)
    rw [(resolve_use_iff hresolved rfl htype).2 hhidden, Option.some.injEq] at hknown
    rw [hs₃.known_eq hconcrete, ← hknown]

/-- Conflicting uses that both count are reported as a mismatch, if no candidate ends a batch and more rounds are allowed
than the tree has names. -/
theorem mismatch_of_conflict (hp : o.commitPolicy = .skipOne) (hs : 0 < s.depth)
    (hlimit : ((Block.names b).toFinset.card : Int) < o.passLimit) {p₁ p₂ : Place} {type₁ type₂ : DataType}
    (hconflict : Conflict b s x p₁ type₁ p₂ type₂) (hc₁ : Counts o b s x p₁ type₁) (hc₂ : Counts o b s x p₂ type₂) :
    ∃ m, (infer o b s).result = .error (.mismatch m) := by
  obtain ⟨hx, ⟨t₁, ht₁, -⟩, ⟨t₂, ht₂, -⟩, h₁, h₂, hne⟩ := hconflict
  have hfails : FailsByMismatch (infer o b s).result := by
    refine infer_failsByMismatch hs fun c hc => ?_
    have := Block.card_unresolved_le hc s
    omega
  have hknown : s.typeOf? x = some (s.known x) := by
    rcases Decidable.em (s.known x = .any) with hk | hk
    · rw [hx, hk]
    · exact Scope.typeOf?_of_known hk
  cases h : (infer o b s).result with
  | error e =>
    obtain ⟨m, rfl⟩ := hfails e h
    exact ⟨m, rfl⟩
  | ok r =>
    obtain ⟨n, b', s'⟩ := r
    have hk₁ := known_of_counts hp h hknown h₁ ⟨t₁, ht₁⟩ hc₁
    have hk₂ := known_of_counts hp h hknown h₂ ⟨t₂, ht₂⟩ hc₂
    exact absurd (hk₁.symm.trans hk₂) hne

/-- A use of an unresolved variable counts, if the pass that examines it finds it and it is not hidden there. -/
theorem Examined.counts {t : Stmt} {e s₁ : Scope} {c : Block} {front back : List Candidate}
    (h : Examined o FirstRound b s p t e (.ok (c, s₁, front ++ ⟨x, type, .use⟩ :: back))) (hu : Uses e x type t)
    (hx : e.typeOf? x = some .any) (hh : ¬Hidden front back ⟨x, type, .use⟩) : Counts o b s x p type := by
  intro t' e' r h'
  obtain ⟨rfl, rfl, rfl⟩ := h.unique h'
  refine ⟨hu, .inr ⟨hx, fun c' s' all resolved hr _ => ?_⟩⟩
  cases hr
  exact ⟨front, back, rfl, hh⟩

/-- The candidate that comes first does not hide uses of another type. -/
theorem not_hidden_of_head? {front back : List Candidate} {c : Candidate}
    (h : ∀ first ∈ (told c.name front).head?, first.type ≠ c.type) : ¬Hidden front back c := by
  rintro ⟨first, seen, more, u, rest, hfront, -, hall, -⟩
  exact h first (by rw [hfront]; rfl) (hall first (List.mem_cons_self ..))

end

/-! ### A variable and two methods -/

/-- A variable of unknown type, with methods around it that take a truth value and an integer. -/
def usesScope : Scope :=
  ⟨[⟨.empty, .ofList [("x", .any)]⟩,
    ⟨.empty, .ofList [("takes_bool", .native [.bool]), ("takes_int", .native [.int])]⟩]⟩

/-- The call of a method with the variable. -/
def passing (callee : String) : Stmt := .call (.named callee) [.identifier "x"] .call

def skipOne : Options := { commitPolicy := .skipOne }

private theorem uses_bool : Uses usesScope "x" .bool (passing "takes_bool") :=
  ⟨_, _, _, rfl, List.mem_cons_self ..⟩

private theorem uses_int : Uses usesScope "x" .int (passing "takes_int") :=
  ⟨_, _, _, rfl, List.mem_cons_self ..⟩

private theorem conflict_of_calls {b : Block} {p₁ p₂ : Place} (h₁ : Block.at? b p₁ = some (passing "takes_bool"))
    (h₂ : Block.at? b p₂ = some (passing "takes_int")) : Conflict b usesScope "x" p₁ .bool p₂ .int where
  unresolved := rfl
  first := ⟨_, h₁, uses_bool⟩
  second := ⟨_, h₂, uses_int⟩
  first_ne_any := by decide
  second_ne_any := by decide
  ne := by decide

/-- A use in a block inside, and another one behind it. -/
def innerUse : Block := [.branch (.bool true) [passing "takes_int"], passing "takes_bool"]

private theorem counts_outer : Counts skipOne innerUse usesScope "x" ⟨[], 1⟩ .bool := by
  have h : Examined skipOne FirstRound innerUse usesScope ⟨[], 1⟩ (passing "takes_bool") usesScope
      (.ok (_, _, [] ++ ⟨"x", .bool, .use⟩ :: [])) :=
    ⟨[_], [], [], usesScope, [], .own ⟨rfl, rfl⟩, rfl, rfl, rfl⟩
  exact h.counts uses_bool rfl (not_hidden_of_head? nofun)

private theorem counts_inner : Counts skipOne innerUse usesScope "x" ⟨[(0, 0)], 0⟩ .int := by
  have hstart : FirstRound innerUse usesScope
      ([] ++ .branch (.bool true) [passing "takes_int"] :: [passing "takes_bool"]) usesScope := ⟨rfl, rfl⟩
  have hblocks : (Stmt.branch (.bool true) [passing "takes_int"]).blocks = [] ++ [passing "takes_int"] :: [] := rfl
  have h : Examined skipOne FirstRound innerUse usesScope ⟨[(0, 0)], 0⟩ (passing "takes_int") usesScope
      (.ok (_, _, [] ++ ⟨"x", .int, .use⟩ :: [])) :=
    ⟨[], [], [], usesScope, [], .inside hstart rfl rfl hblocks rfl (.own ⟨rfl, rfl⟩), rfl, rfl, rfl⟩
  exact h.counts uses_int rfl (not_hidden_of_head? nofun)

/-- Two uses, and a truth value behind them that comes first in the merge. -/
def usesBeforeValue : Block := [passing "takes_int", passing "takes_bool", .assign "x" "=" (.bool true)]

/-- The value has the type of the use, but the other use does not prevail over it. -/
private theorem counts_before_value : Counts skipOne usesBeforeValue usesScope "x" ⟨[], 1⟩ .bool := by
  have h : Examined skipOne FirstRound usesBeforeValue usesScope ⟨[], 1⟩ (passing "takes_bool") usesScope
      (.ok (_, _, [⟨"x", .bool, .value⟩] ++ ⟨"x", .bool, .use⟩ :: [⟨"x", .int, .use⟩])) :=
    ⟨[_], [_], _, usesScope, _, .own ⟨rfl, rfl⟩, rfl, rfl, rfl⟩
  refine h.counts uses_bool rfl ?_
  rintro ⟨first, seen, more, u, rest, hfront, hback, hall, hne, hp⟩
  have hfront : first = ⟨"x", .bool, .value⟩ := (List.cons.inj hfront).1.symm
  subst hfront
  rcases hp.2 with hdeclared | ⟨-, -, hint⟩
  · cases hdeclared
  · cases hint

private theorem counts_in_front : Counts skipOne usesBeforeValue usesScope "x" ⟨[], 0⟩ .int := by
  have h : Examined skipOne FirstRound usesBeforeValue usesScope ⟨[], 0⟩ (passing "takes_int") usesScope
      (.ok (_, _, [⟨"x", .bool, .value⟩, ⟨"x", .bool, .use⟩] ++ ⟨"x", .int, .use⟩ :: [])) :=
    ⟨[], [_, _], _, usesScope, _, .own ⟨rfl, rfl⟩, rfl, rfl, rfl⟩
  refine h.counts uses_int rfl (not_hidden_of_head? ?_)
  rintro _ ⟨⟩
  nofun

theorem mismatch_of_two_uses : (∃ m, (infer skipOne innerUse usesScope).result = .error (.mismatch m)) ∧
    ∃ m, (infer skipOne usesBeforeValue usesScope).result = .error (.mismatch m) := by
  have hinner : Conflict innerUse usesScope "x" ⟨[], 1⟩ .bool ⟨[(0, 0)], 0⟩ .int := conflict_of_calls rfl rfl
  have hvalue : Conflict usesBeforeValue usesScope "x" ⟨[], 1⟩ .bool ⟨[], 0⟩ .int := conflict_of_calls rfl rfl
  exact ⟨mismatch_of_conflict rfl (by decide) (by decide) hinner counts_outer counts_inner,
    mismatch_of_conflict rfl (by decide) (by decide) hvalue counts_before_value counts_in_front⟩

/-- Uses conflict, no candidate ends a batch, more rounds are allowed than the tree has names, and there is a result. -/
def Unreported (o : Options) (b : Block) (s : Scope) (x : Text) : Prop :=
  o.commitPolicy = .skipOne ∧ 0 < s.depth ∧ ((Block.names b).toFinset.card : Int) < o.passLimit ∧
    (∃ p₁ type₁ p₂ type₂, Conflict b s x p₁ type₁ p₂ type₂) ∧ ∃ r, (infer o b s).result = .ok r

/-- Not every conflict is reported: a block inside may resolve the variable before the other use is examined, it may
declare the name of a callee, and a value may hide a use of its type that another use prevails over. -/
theorem conflicts_unreported :
    Unreported skipOne [passing "takes_bool", .branch (.bool true) [passing "takes_int"]] usesScope "x" ∧
    Unreported skipOne [passing "takes_bool", passing "takes_int",
      .branch (.bool true) [.declare .any "takes_int" (some (.int 1))]] usesScope "x" ∧
    Unreported skipOne [passing "takes_bool", passing "takes_int", .assign "x" "=" (.int 5)] usesScope "x" := by
  refine ⟨⟨rfl, by decide, by decide, ?_, _, rfl⟩, ⟨rfl, by decide, by decide, ?_, _, rfl⟩,
    ⟨rfl, by decide, by decide, ?_, _, rfl⟩⟩
  · exact ⟨⟨[], 0⟩, _, ⟨[(1, 0)], 0⟩, _, conflict_of_calls rfl rfl⟩
  · exact ⟨⟨[], 0⟩, _, ⟨[], 1⟩, _, conflict_of_calls rfl rfl⟩
  · exact ⟨⟨[], 0⟩, _, ⟨[], 1⟩, _, conflict_of_calls rfl rfl⟩

end MapScript.Typing
