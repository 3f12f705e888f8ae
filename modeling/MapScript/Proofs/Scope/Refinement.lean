import MapScript.Proofs.Scope.Binding

/-!
# Refinement of scopes

A scope refines another when it comes from it by giving concrete types to names that have none in the innermost layer.
Everything else stays: addresses, outer layers, and every concrete type (`Refines.completes`). So a scope that is refined
and comes back to itself has not changed on the way (`Refines.antisymm`).
-/

namespace MapScript.Scope

/-- The type of a name in the innermost layer, the wildcard if it is not bound there. -/
def known (s : Scope) (name : Text) : DataType := (s.currentType? name).getD .any

/-- Names with the property `P` get concrete types in the innermost layer, where they have none, one behind the other. -/
inductive Refines (P : Text → Prop) (s : Scope) : Scope → Prop
  | refl : Refines P s s
  | step {s₁ s₂ : Scope} {name : Text} {type : DataType} : Refines P s s₁ → P name → s₁.known name = .any →
    type ≠ .any → s₁.bindName name type = .ok s₂ → Refines P s s₂

/-- Refinement at any names. -/
abbrev Grows (s s' : Scope) : Prop := s.Refines (fun _ => True) s'

/-- The second scope is the first one but for names with the property `P` that have got concrete types in the innermost
layer, where they were not bound or bound to the wildcard. -/
structure Completes (P : Text → Prop) (s s' : Scope) : Prop where
  depth_eq : s'.depth = s.depth
  outer_eq : s'.layers.tail = s.layers.tail
  addresses_eq : s'.layers.map Layer.addresses = s.layers.map Layer.addresses
  kept : ∀ {name type}, s.currentType? name = some type → type ≠ .any → s'.currentType? name = some type
  changed : ∀ {name}, s'.currentType? name ≠ s.currentType? name →
    (s.currentType? name = none ∨ s.currentType? name = some .any) ∧
    (∃ type, type ≠ .any ∧ s'.currentType? name = some type) ∧ P name

/-! ### Known types -/

theorem known_bindName {s s' : Scope} {name : Text} {type : DataType} (h : s.bindName name type = .ok s')
    (other : Text) : s'.known other = if name = other then type else s.known other := by
  rw [known, currentType?_bindName h]
  split <;> rfl

theorem currentType?_of_known {s : Scope} {name : Text} (h : s.known name ≠ .any) :
    s.currentType? name = some (s.known name) := by
  cases hn : s.currentType? name with
  | none =>
    rw [known, hn] at h
    exact absurd rfl h
  | some type => rw [known, hn, Option.getD_some]

/-- A concrete type in the innermost layer is the one that is looked up. -/
theorem typeOf?_of_known {s : Scope} {name : Text} (h : s.known name ≠ .any) :
    s.typeOf? name = some (s.known name) :=
  typeOf?_of_currentType? (currentType?_of_known h)

theorem known_eq_any_iff {s : Scope} {name : Text} :
    s.known name = .any ↔ s.currentType? name = none ∨ s.currentType? name = some .any := by
  cases hn : s.currentType? name with
  | none => simp [known, hn]
  | some type => simp [known, hn]

/-- A name that the layers around the innermost one do not bind is looked up there. -/
theorem typeOf?_of_tail {s : Scope} {name : Text} (h : ∀ layer ∈ s.layers.tail, layer.names.get? name = none) :
    s.typeOf? name = s.currentType? name := by
  rw [typeOf?_eq_or_tail, List.findSome?_eq_none_iff.2 h, Option.or_none]

/-! ### Refinement -/

namespace Refines

variable {P Q : Text → Prop} {s s₁ s₂ : Scope}

theorem trans (h : Refines P s s₁) (h' : Refines P s₁ s₂) : Refines P s s₂ := by
  induction h' with
  | refl => exact h
  | step _ hP hk ht hb ih => exact .step ih hP hk ht hb

theorem tail_eq (h : Refines P s s₁) : s₁.layers.tail = s.layers.tail := by
  induction h with
  | refl => rfl
  | step _ _ _ _ hb ih => rw [tail_bindName hb, ih]

theorem addresses_eq (h : Refines P s s₁) : s₁.layers.map Layer.addresses = s.layers.map Layer.addresses := by
  induction h with
  | refl => rfl
  | step _ _ _ _ hb ih => rw [addresses_bindName hb, ih]

theorem nameAt?_eq (h : Refines P s s₁) (address : Int) : s₁.nameAt? address = s.nameAt? address := by
  rw [nameAt?_eq_addresses, nameAt?_eq_addresses, h.addresses_eq]

theorem depth_eq (h : Refines P s s₁) : s₁.depth = s.depth := by
  have hlength := congrArg List.length h.addresses_eq
  rwa [List.length_map, List.length_map] at hlength

/-- A concrete type is kept. -/
theorem known_eq (h : Refines P s s₁) {name : Text} (hn : s.known name ≠ .any) : s₁.known name = s.known name := by
  induction h with
  | refl => rfl
  | @step s₁ s₂ other type _ _ hk _ hb ih =>
    rw [known_bindName hb]
    split
    · rename_i he
      subst he
      rw [ih] at hk
      exact absurd hk hn
    · exact ih

theorem known_of_known_eq_any (h : Refines P s s₁) {name : Text} (hn : s₁.known name = .any) : s.known name = .any := by
  rcases Decidable.em (s.known name = .any) with hs | hs
  · exact hs
  · rw [h.known_eq hs] at hn
    exact absurd hn hs

/-- The innermost layer binds names as before, but for those that got a type. -/
theorem currentType?_eq_or (h : Refines P s s₁) (name : Text) :
    s₁.currentType? name = s.currentType? name ∨ P name ∧ s.known name = .any ∧ s₁.known name ≠ .any := by
  induction h with
  | refl => exact .inl rfl
  | @step s₁ s₂ other type h hP hk ht hb ih =>
    rw [currentType?_bindName hb, known_bindName hb]
    by_cases hn : other = name
    · subst hn
      exact .inr ⟨hP, h.known_of_known_eq_any hk, by rwa [if_pos rfl]⟩
    · rw [if_neg hn, if_neg hn]
      exact ih

/-- What is looked up is the same as before, but for names that got a type. -/
theorem typeOf?_eq_or (h : Refines P s s₁) (name : Text) :
    s₁.typeOf? name = s.typeOf? name ∨ P name ∧ s.known name = .any ∧ s₁.known name ≠ .any := by
  refine (h.currentType?_eq_or name).imp_left fun he => ?_
  rw [typeOf?_eq_or_tail, typeOf?_eq_or_tail, he, h.tail_eq]

/-- A name without a concrete type afterwards is looked up as before. -/
theorem typeOf?_eq (h : Refines P s s₁) {name : Text} (hn : s₁.known name = .any) :
    s₁.typeOf? name = s.typeOf? name := by
  rcases h.typeOf?_eq_or name with h | ⟨-, -, h⟩
  · exact h
  · exact absurd hn h

theorem typeOf?_of_any (h : Refines P s s₁) {name : Text} (hn : s₁.typeOf? name = some .any) :
    s.typeOf? name = some .any := by
  rcases h.typeOf?_eq_or name with he | ⟨-, -, h₁⟩
  · rw [← he, hn]
  · rw [typeOf?_of_known h₁, Option.some.injEq] at hn
    exact absurd hn h₁

/-- A name that is looked up in the innermost layer, or is a wildcard wherever it is bound, remains so. -/
theorem typeOf?_eq_known (h : Refines P s s₁) {name : Text} (hn : s.typeOf? name = some (s.known name)) :
    s₁.typeOf? name = some (s₁.known name) := by
  rcases Decidable.em (s₁.known name = .any) with h₁ | h₁
  · rw [h.typeOf?_eq h₁, hn, h.known_of_known_eq_any h₁, h₁]
  · exact typeOf?_of_known h₁

/-- Only the properties of names that had no concrete type count. -/
theorem mono (h : Refines P s s₁) (hPQ : ∀ name, s.known name = .any → P name → Q name) : Refines Q s s₁ := by
  induction h with
  | refl => exact .refl
  | step h hP hk ht hb ih => exact .step ih (hPQ _ (h.known_of_known_eq_any hk) hP) hk ht hb

theorem grows (h : Refines P s s₁) : s.Grows s₁ := h.mono fun _ _ _ => trivial

theorem eq_or_exists (h : Refines P s s₁) : s₁ = s ∨ ∃ name, P name ∧ s.known name = .any ∧ s₁.known name ≠ .any := by
  cases h with
  | refl => exact .inl rfl
  | @step s₁ s₂ name type h hP hk ht hb =>
    exact .inr ⟨name, hP, h.known_of_known_eq_any hk, by rwa [known_bindName hb, if_pos rfl]⟩

/-- Refinement changes nothing but to give types to names that have none. -/
theorem completes (h : Refines P s s₁) : s.Completes P s₁ where
  depth_eq := h.depth_eq
  outer_eq := h.tail_eq
  addresses_eq := h.addresses_eq
  kept {name type} hn ht := by
    have hk : s.known name = type := by rw [known, hn, Option.getD_some]
    have hk₁ : s₁.known name = type := by rw [h.known_eq (by rwa [hk]), hk]
    rw [currentType?_of_known (by rwa [hk₁]), hk₁]
  changed {name} hne := by
    obtain ⟨hP, hk, hk₁⟩ := (h.currentType?_eq_or name).resolve_left hne
    exact ⟨known_eq_any_iff.1 hk, ⟨s₁.known name, hk₁, currentType?_of_known hk₁⟩, hP⟩

theorem antisymm (h : Refines P s s₁) (h' : Refines Q s₁ s) : s₁ = s := by
  rcases h.eq_or_exists with he | ⟨name, -, hn, hn₁⟩
  · exact he
  · rw [h'.known_eq hn₁] at hn
    exact absurd hn hn₁

end Refines

end MapScript.Scope
