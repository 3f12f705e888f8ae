import MapScript.Proofs.Typing.Passes

/-!
# Declarations and inferred types

The last pass over a block stamps its declarations with the types of their names, if they are known when the pass comes
by. A block in front of a declaration may resolve its name later in that pass, and if nothing else is learned, no further
pass follows. So the declarations of the resulting tree agree with the resulting scope just when those do that are
overtaken in this way (`declarations_agree_iff`); `late_declaration` is one that does not.
-/

namespace MapScript.Typing

/-- A declaration that a last pass examines while its name has no type, though it has one in the resulting scope. -/
def Overtaken (o : Options) (b : Block) (s s' : Scope) (d : Stmt) : Prop :=
  ∃ type name value p e r, d = .declare type name value ∧ Examined o (LastRound o) b s p d e r ∧
    e.known name = .any ∧ s'.known name ≠ .any

variable {o : Options} {n : Nat} {b b' : Block} {s s' : Scope}

private theorem Overtaken.mem_statements {d : Stmt} (h : Run o n b s b' s') (hd : Overtaken o b s s' d) :
    d ∈ Block.statements b' := by
  obtain ⟨type, name, value, p, e, r, rfl, hd, hn, -⟩ := hd
  obtain ⟨t₁, proposed, ht, hmem⟩ := mem_statements_of_examined h hd rfl
  rcases examineDeclaration_cases ht with ⟨-, rfl, -⟩ | ⟨hk, -⟩
  · exact hmem
  · exact absurd hn hk

/-- The declarations of the resulting tree have the types of their names in the resulting scope, if those have that last
passes examine too early. -/
theorem declarations_agree_iff (h : (infer o b s).result = .ok (n, b', s')) :
    (∀ d ∈ Block.statements b', d.Agrees s') ↔ ∀ d, Overtaken o b s s' d → d.Agrees s' := by
  have hrun := (infer_eq_ok_iff.1 h).1
  constructor
  · exact fun hall d hd => hall d (hd.mem_statements hrun)
  · intro hovertaken d hd type name value ht hk
    subst ht
    obtain ⟨p, t, e, r, proposed, hexamined, ht, hs⟩ := exists_examined_of_mem hrun hd rfl
    rcases Decidable.em (e.known name = .any) with he | he
    · -- the declaration has not been changed, and its name has got its type later
      have htd := eq_of_examineDeclaration ht he
      subst htd
      exact hovertaken _ ⟨type, name, value, p, e, r, rfl, hexamined, he, hk⟩ rfl hk
    · rw [hs.known_eq he]
      exact agrees_of_examine ht rfl he

/-! ### A declaration behind a block that tells its type -/

/-- A variable of unknown type, with a method around it that takes a truth value. -/
def lateScope : Scope := ⟨[⟨.empty, .ofList [("x", .any)]⟩, ⟨.empty, .ofList [("takes_bool", .native [.bool])]⟩]⟩

def lateBlock : Block :=
  [.branch (.bool true) [.call (.named "takes_bool") [.identifier "x"] .call], .declare .any "x" none]

theorem declarations_agree_iff_late : ∃ n b' s', (infer {} lateBlock lateScope).result = .ok (n, b', s') ∧
    ((∀ d ∈ Block.statements b', d.Agrees s') ↔ ∀ d, Overtaken {} lateBlock lateScope s' d → d.Agrees s') :=
  ⟨_, _, _, rfl, declarations_agree_iff rfl⟩

/-- The variable is a truth value in the end, but its declaration says nothing. -/
theorem late_declaration : ∃ n b' s', (infer {} lateBlock lateScope).result = .ok (n, b', s') ∧
    .declare .any "x" none ∈ Block.statements b' ∧ s'.currentType? "x" = some .bool ∧
    ¬ ∀ d ∈ Block.statements b', d.Agrees s' := by
  refine ⟨_, _, _, rfl, .tail _ (.tail _ (.head _)), rfl, fun h => ?_⟩
  have hd := h (.declare .any "x" none) (.tail _ (.tail _ (.head _))) rfl nofun
  cases hd.1

end MapScript.Typing
