import Mathlib.Data.List.Forall2
import MapScript.Failure

/-!
# Outcomes

Steps that may fail are taken apart by `bind_eq_ok_iff`; a list of steps fails where one of them does. `Ends` says which
values and which failures a computation can end in, and `FailsByMismatch` that it fails for type information that disagrees
and for nothing else; both pass from steps to their sequence.
-/

namespace MapScript

variable {ε α β : Type}

theorem bind_eq_ok_iff {x : Except ε α} {f : α → Except ε β} {b : β} :
    x >>= f = .ok b ↔ ∃ a, x = .ok a ∧ f a = .ok b := by
  cases x with
  | error e => exact ⟨nofun, nofun⟩
  | ok a => exact ⟨fun h => ⟨a, rfl, h⟩, fun ⟨_, h, h'⟩ => by cases h; exact h'⟩

theorem exists_eq_error_iff {x : Except ε α} : (∃ e, x = .error e) ↔ ¬∃ a, x = .ok a := by
  cases x with
  | error e => exact ⟨fun _ => nofun, fun _ => ⟨e, rfl⟩⟩
  | ok a => exact ⟨nofun, fun h => absurd ⟨a, rfl⟩ h⟩

theorem exists_of_map_eq_ok {x : Except ε α} {f : α → β} {b : β} (h : x.map f = .ok b) : ∃ a, x = .ok a ∧ f a = b := by
  cases x with
  | error e => cases h
  | ok a => exact ⟨a, rfl, Except.ok.inj h⟩

theorem mapError_eq_ok_iff {ε' : Type} {f : ε → ε'} {x : Except ε α} {a : α} :
    x.mapError f = .ok a ↔ x = .ok a := by
  cases x with
  | error e => exact ⟨nofun, nofun⟩
  | ok b => exact ⟨fun h => congrArg _ (Except.ok.inj h), fun h => congrArg _ (Except.ok.inj h)⟩

theorem exists_of_mapError_error {ε' : Type} {f : ε → ε'} {x : Except ε α} {e' : ε'}
    (h : x.mapError f = .error e') : ∃ e, x = .error e ∧ f e = e' := by
  cases x with
  | error e => exact ⟨e, rfl, Except.error.inj h⟩
  | ok b => cases h

/-- Two sequences agree if the second steps agree on the value of the first one. -/
theorem bind_congr_of_ok {x : Except ε α} {f g : α → Except ε β} (h : ∀ a, x = .ok a → f a = g a) :
    x >>= f = x >>= g := by
  cases x with
  | error e => rfl
  | ok a => exact h a rfl

theorem exists_right_of_forall₂ {S : α → β → Prop} {as : List α} {bs : List β} (h : List.Forall₂ S as bs) {a : α}
    (ha : a ∈ as) : ∃ b ∈ bs, S a b := by
  induction h with
  | nil => cases ha
  | cons hab _ ih =>
    rcases List.mem_cons.1 ha with rfl | ha
    · exact ⟨_, List.mem_cons_self .., hab⟩
    · obtain ⟨b, hb, hS⟩ := ih ha
      exact ⟨b, List.mem_cons_of_mem _ hb, hS⟩

theorem exists_left_of_forall₂ {S : α → β → Prop} {as : List α} {bs : List β} (h : List.Forall₂ S as bs) {b : β}
    (hb : b ∈ bs) : ∃ a ∈ as, S a b := exists_right_of_forall₂ h.flip hb

/-- Steps over a list have values just when every step has its value. -/
theorem mapM_eq_ok_iff {f : α → Except ε β} {as : List α} {bs : List β} :
    as.mapM f = .ok bs ↔ List.Forall₂ (fun a b => f a = .ok b) as bs := by
  induction as generalizing bs with
  | nil =>
    rw [List.mapM_nil, List.forall₂_nil_left_iff]
    exact ⟨fun h => (Except.ok.inj h).symm, fun h => congrArg _ h.symm⟩
  | cons a rest ih =>
    rw [List.mapM_cons, bind_eq_ok_iff]
    constructor
    · rintro ⟨b, hb, h⟩
      obtain ⟨bs', hrest, h⟩ := bind_eq_ok_iff.1 h
      cases h
      exact .cons hb (ih.1 hrest)
    · rintro (_ | ⟨hb, hrest⟩)
      exact ⟨_, hb, bind_eq_ok_iff.2 ⟨_, ih.2 hrest, rfl⟩⟩

theorem exists_of_mapM_error {f : α → Except ε β} {as : List α} {e : ε} (h : as.mapM f = .error e) :
    ∃ a ∈ as, f a = .error e := by
  induction as with
  | nil => cases h
  | cons a rest ih =>
    rw [List.mapM_cons] at h
    cases ha : f a with
    | error e' =>
      rw [ha] at h
      cases h
      exact ⟨a, List.mem_cons_self .., ha⟩
    | ok b =>
      rw [ha] at h
      cases hrest : rest.mapM f with
      | error e' =>
        rw [hrest] at h
        cases h
        obtain ⟨c, hc, hfc⟩ := ih hrest
        exact ⟨c, List.mem_cons_of_mem _ hc, hfc⟩
      | ok bs =>
        rw [hrest] at h
        cases h

/-- A fold that fails has come as far as some element without failing, and fails there. -/
theorem exists_of_foldlM_error {f : α → β → Except ε α} {a : α} {bs : List β} {e : ε} (h : bs.foldlM f a = .error e) :
    ∃ front b back a', bs = front ++ b :: back ∧ front.foldlM f a = .ok a' ∧ f a' b = .error e := by
  induction bs generalizing a with
  | nil => cases h
  | cons b rest ih =>
    rw [List.foldlM_cons] at h
    cases hb : f a b with
    | error e' =>
      rw [hb] at h
      cases h
      exact ⟨[], b, rest, a, rfl, rfl, hb⟩
    | ok a' =>
      rw [hb] at h
      obtain ⟨front, c, back, a'', rfl, hfront, hc⟩ := ih h
      refine ⟨b :: front, c, back, a'', rfl, ?_, hc⟩
      rw [List.foldlM_cons, hb]
      exact hfront

/-- In a fold that has a value every element has had its step. -/
theorem exists_of_foldlM_ok {f : α → β → Except ε α} {a a' : α} {bs : List β} (h : bs.foldlM f a = .ok a') :
    ∀ b ∈ bs, ∃ a₁ a₂, f a₁ b = .ok a₂ := by
  induction bs generalizing a with
  | nil => exact nofun
  | cons b rest ih =>
    rw [List.foldlM_cons, bind_eq_ok_iff] at h
    obtain ⟨a₁, hb, hrest⟩ := h
    exact List.forall_mem_cons.2 ⟨⟨a, a₁, hb⟩, ih hrest⟩

/-- A computation ends in a value of one kind, or in a failure of another. -/
inductive Ends (Q : α → Prop) (F : ε → Prop) : Except ε α → Prop
  | ok {a : α} : Q a → Ends Q F (.ok a)
  | error {e : ε} : F e → Ends Q F (.error e)

namespace Ends

variable {Q : α → Prop} {Q' : β → Prop} {F : ε → Prop}

theorem of_ok {a : α} (h : Ends Q F (.ok a)) : Q a := by
  cases h
  assumption

theorem of_error {e : ε} (h : Ends Q F (.error e)) : F e := by
  cases h
  assumption

theorem mono {Q₁ : α → Prop} {F₁ : ε → Prop} {x : Except ε α} (h : Ends Q F x) (hQ : ∀ a, Q a → Q₁ a)
    (hF : ∀ e, F e → F₁ e) : Ends Q₁ F₁ x := by
  cases h with
  | ok h => exact .ok (hQ _ h)
  | error h => exact .error (hF _ h)

theorem imp {Q₁ : α → Prop} {x : Except ε α} (h : Ends Q F x) (hQ : ∀ a, Q a → Q₁ a) : Ends Q₁ F x :=
  h.mono hQ fun _ => id

theorem bind {x : Except ε α} {f : α → Except ε β} (hx : Ends Q F x) (hf : ∀ a, x = .ok a → Q a → Ends Q' F (f a)) :
    Ends Q' F (x >>= f) := by
  cases hx with
  | ok h => exact hf _ rfl h
  | error h => exact .error h

/-- What one step keeps, all steps of a fold keep. -/
theorem foldlM {f : α → β → Except ε α} {a : α} {bs : List β} (ha : Q a)
    (hf : ∀ b ∈ bs, ∀ a, Q a → Ends Q F (f a b)) : Ends Q F (bs.foldlM f a) := by
  induction bs generalizing a with
  | nil => exact .ok ha
  | cons b rest ih =>
    rw [List.foldlM_cons]
    exact (hf b (List.mem_cons_self ..) a ha).bind fun _ _ ha => ih ha fun b hb => hf b (List.mem_cons_of_mem _ hb)

/-- A computation without failures has a value. -/
theorem exists_ok {x : Except ε α} (h : Ends Q (fun _ => False) x) : ∃ a, x = .ok a ∧ Q a := by
  cases h with
  | ok h => exact ⟨_, rfl, h⟩
  | error h => exact h.elim

end Ends

/-- Whether a computation has a value, or else fails for types that disagree. -/
def FailsByMismatch (x : Except Failure α) : Prop := ∀ e, x = .error e → ∃ m, e = .mismatch m

namespace FailsByMismatch

theorem ok (a : α) : FailsByMismatch (.ok a) := nofun

theorem mismatch (m : TypeMismatch) : FailsByMismatch (.error (.mismatch m) : Except Failure α) := by
  intro e h
  cases h
  exact ⟨m, rfl⟩

theorem bind {x : Except Failure α} {f : α → Except Failure β} (hx : FailsByMismatch x)
    (hf : ∀ a, x = .ok a → FailsByMismatch (f a)) : FailsByMismatch (x >>= f) := by
  cases x with
  | error e =>
    intro e' h
    cases h
    exact hx e rfl
  | ok a => exact hf a rfl

end FailsByMismatch

end MapScript
