import MapScript.Proofs.Scope.Refinement
import MapScript.Proofs.Scope.Runs
import MapScript.Script.Lookup

/-!
# Types of addresses

An address is always bound together with the type of its name, in one layer. Later the name may get another type there, but
it is never unbound. So every layer has a type for each name that it binds an address to (`Layer.TypesAddresses`), whatever
is done with a scope (`TypesAddresses.perform`). A pointer is looked up in two steps, and the second one finds something
whenever the first one does (`TypesAddresses.pointer_cases`).
-/

namespace MapScript

/-- The layer binds every name that it binds an address to. -/
def Layer.TypesAddresses (l : Layer) : Prop := ∀ address name, l.addresses.get? address = some name → name ∈ l.names.keys

namespace Layer.TypesAddresses

theorem empty : Layer.empty.TypesAddresses := fun _ _ h => nomatch h

/-- A name that is written for an address gets a type in the same step, and no name loses its type. -/
theorem write {l : Layer} (h : l.TypesAddresses) (step : ScopeStep) : (step.write l).TypesAddresses := by
  cases step with
  | push | pop => exact h
  | bindName name type | refineName name type =>
    exact fun address other hother => Table.mem_keys_insert.2 (.inr (h address other hother))
  | bindAddress address name type =>
    intro other given hgiven
    rw [ScopeStep.write, Table.get?_insert] at hgiven
    refine Table.mem_keys_insert.2 ?_
    split at hgiven
    · exact .inl (Option.some.inj hgiven).symm
    · exact .inr (h other given hgiven)

end Layer.TypesAddresses

namespace Scope

/-- Every layer binds the names of its addresses. -/
def TypesAddresses (s : Scope) : Prop := ∀ layer ∈ s.layers, layer.TypesAddresses

namespace TypesAddresses

variable {s s' : Scope}

theorem base : Scope.base.TypesAddresses := List.forall_mem_singleton.2 .empty

theorem of_performs {step : ScopeStep} {answer : Except Failure ScopeAnswer} (hs : s.TypesAddresses)
    (h : s.Performs step answer s') : s'.TypesAddresses := by
  cases h with
  | push => exact List.forall_mem_cons.2 ⟨.empty, hs⟩
  | pop => exact fun layer hlayer => hs layer (List.mem_of_mem_tail hlayer)
  | bind _ hlayers =>
    rw [TypesAddresses, hlayers, List.forall_mem_cons] at hs
    exact List.forall_mem_cons.2 ⟨hs.1.write _, hs.2⟩
  | outside | unfit => exact hs

theorem perform (hs : s.TypesAddresses) (step : ScopeStep) : (s.perform step).2.TypesAddresses :=
  hs.of_performs (s.performs step)

theorem of_bindName {name : Text} {type : DataType} (hs : s.TypesAddresses) (h : s.bindName name type = .ok s') :
    s'.TypesAddresses := by
  have hperform := hs.perform (.bindName name type)
  rw [Scope.perform, h] at hperform
  exact hperform

theorem of_bindAddress {address : Int} {name : Text} {type : DataType} (hs : s.TypesAddresses)
    (h : s.bindAddress address name type = .ok s') : s'.TypesAddresses := by
  have hperform := hs.perform (.bindAddress address name type)
  rw [Scope.perform, h] at hperform
  exact hperform

theorem of_refines {P : Text → Prop} (hs : s.TypesAddresses) (h : s.Refines P s') : s'.TypesAddresses := by
  induction h with
  | refl => exact hs
  | step _ _ _ _ hb ih => exact ih.of_bindName hb

/-! ### Looking up -/

/-- The layer that names an address has a type for the name, and a layer inside it may have another one. -/
theorem exists_typeOf? (hs : s.TypesAddresses) {address : Int} {name : Text} (h : s.nameAt? address = some name) :
    ∃ type, s.typeOf? name = some type := by
  obtain ⟨layer, hlayer, hname⟩ := List.exists_of_findSome?_eq_some h
  obtain ⟨type, htype⟩ := Table.mem_keys_iff.1 (hs layer hlayer address name hname)
  refine Option.ne_none_iff_exists'.1 fun hnone => ?_
  rw [typeOf?, List.findSome?_eq_none_iff] at hnone
  rw [hnone layer hlayer] at htype
  cases htype

/-- A pointer to an address without a name is not found and taken for an integer. Any other one is found with the type of
its name, which is the type of the pointer too. -/
theorem pointer_cases (hs : s.TypesAddresses) (address : Int) :
    s.nameAt? address = none ∧ (Callee.pointer address).lookup? s = none ∧ (Expr.pointer address).type s = .int ∨
    ∃ name type, s.nameAt? address = some name ∧ s.typeOf? name = some type ∧
      (Callee.pointer address).lookup? s = some (name, type) ∧ (Expr.pointer address).type s = type := by
  cases hname : s.nameAt? address with
  | none => exact .inl ⟨rfl, by simp [Callee.lookup?, Callee.name?, hname], by simp [Expr.type, hname]⟩
  | some name =>
    obtain ⟨type, htype⟩ := hs.exists_typeOf? hname
    refine .inr ⟨name, type, rfl, htype, ?_, ?_⟩
    · simp [Callee.lookup?, Callee.name?, hname, htype]
    · simp [Expr.type, hname, htype]

end TypesAddresses

end Scope

end MapScript
