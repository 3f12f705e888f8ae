import MapScript.Proofs.Binary64.Exact
import MapScript.Proofs.Operand.Names

/-!
# Bands of operands

The bands of the storage classes lie side by side, each with its origin in the middle, so that the first class whose last
operand is not exceeded is the class of the band (`of?_of_spans`). Between the bands and the literals below them lie
the fixed point numbers, which are exact.

Together with the names of variables this says what an operand stands for, and that its name tells it
(`ofInt_by_bands`).
-/

namespace MapScript

namespace Storage

/-- The operands of a storage class: the index zero lies in the middle. -/
def Spans (s : Storage) (value : Int) : Prop := s.origin - 10000000 < value ∧ value ≤ s.origin + 10000000

private theorem ordered_all : all.Pairwise fun s t => s.last ≤ t.origin - 10000000 := by decide

/-- Classes in front of the one that spans an operand end below it. -/
theorem of?_of_spans {s : Storage} {value : Int} (h : s.Spans value) : of? value = some s := by
  obtain ⟨hlow, hhigh⟩ := h
  obtain ⟨front, back, hall⟩ := List.append_of_mem s.mem_all
  have hfront : ∀ t ∈ front, t.last ≤ s.origin - 10000000 := by
    have hordered := ordered_all
    rw [hall, List.pairwise_append] at hordered
    exact fun t ht => hordered.2.2 t ht s (List.mem_cons_self ..)
  rw [of?, List.find?_eq_some_iff_append]
  refine ⟨decide_eq_true hhigh, front, back, hall, fun t ht => ?_⟩
  have hlast := hfront t ht
  simp only [Bool.not_eq_true', decide_eq_false_iff_not]
  omega

/-- The bands leave no gap. -/
theorem exists_spans {value : Int} (hlow : -220000000 < value) (hhigh : value ≤ -20000000) :
    ∃ s : Storage, s.Spans value := by
  -- The origins are evenly spaced, so a division finds the band.
  have horigin : ∀ n : Fin 10, all[n].origin = -210000000 + 20000000 * (n : Int) := by decide
  obtain ⟨n, hn⟩ : ∃ n : Fin 10, (n : Int) = (value + 219999999) / 20000000 :=
    ⟨⟨((value + 219999999) / 20000000).toNat, by omega⟩, by simp only; omega⟩
  refine ⟨all[n], ?_⟩
  rw [Spans, horigin]
  omega

theorem of?_eq_none {value : Int} (h : -20000000 < value) : of? value = none := by
  rw [of?, List.find?_eq_none]
  intro s _
  have hlast : s.last ≤ -20000000 := by cases s <;> decide
  simp only [decide_eq_true_eq]
  omega

theorem origin_bounds (s : Storage) : -210000000 ≤ s.origin ∧ s.origin ≤ -30000000 := by
  cases s <;> decide

end Storage

namespace Operand

theorem ofInt_of_spans {s : Storage} {value : Int} (h : s.Spans value) :
    ofInt value = .variable ⟨s, value - s.origin⟩ := by
  have hlow := h.1
  have horigin := s.origin_bounds.1
  rw [ofInt, lastLowLiteral, lastFixed, if_neg (by omega), if_neg (by omega), Storage.of?_of_spans h]

theorem ofInt_eq_literal {value : Int} (h : value ≤ -270000000 ∨ -20000000 < value) : ofInt value = .literal value := by
  rw [ofInt, lastLowLiteral, lastFixed]
  rcases h with h | h
  · rw [if_pos h]
  · rw [if_neg (by omega), if_neg (by omega), Storage.of?_eq_none h]

/-- An operand of the fixed point band stands for a number that is not rounded. -/
theorem exists_ofInt_eq_fixed {value : Int} (hlow : -270000000 < value) (hhigh : value ≤ -220000000) :
    ∃ x, ofInt value = .fixed x ∧ x.toRat? = some ((value + 230000000 : ℚ) / 1024) := by
  refine ⟨.ofQuotient (value - fixedOrigin) fixedScale, ?_, ?_⟩
  · rw [ofInt, lastLowLiteral, lastFixed, if_neg (by omega), if_pos hhigh]
  · have hdigits : (value - fixedOrigin).natAbs < 2 ^ 53 := by
      rw [fixedOrigin]
      omega
    have hscale : fixedScale = 2 ^ 10 := by decide
    rw [hscale, Binary64.toRat?_ofQuotient_two_pow hdigits (by decide), fixedOrigin]
    norm_num

/-- The operand of a variable is found from its class and its index. -/
theorem eq_of_ofInt_eq_variable {value : Int} {x : Variable} (h : ofInt value = .variable x) :
    value = x.storage.origin + x.index := by
  unfold ofInt at h
  split at h
  · cases h
  split at h
  · cases h
  split at h
  · cases h
    simp only
    omega
  · cases h

/-- Every operand stands for exactly one thing: a variable of exactly one class in the bands of the storage classes, a
number without rounding in the band below them, itself elsewhere. Variables have different names, and so have their
operands. -/
theorem ofInt_by_bands :
    (∀ (s : Storage) (i : Int), -10000000 < i → i ≤ 10000000 → ofInt (s.origin + i) = .variable ⟨s, i⟩) ∧
    (∀ value : Int, -220000000 < value → value ≤ -20000000 →
      ∃! x : Variable, -10000000 < x.index ∧ x.index ≤ 10000000 ∧ value = x.storage.origin + x.index) ∧
    (∀ value : Int, value ≤ -270000000 ∨ -20000000 < value → ofInt value = .literal value) ∧
    (∀ value : Int, -270000000 < value → value ≤ -220000000 →
      ∃ x, ofInt value = .fixed x ∧ x.toRat? = some ((value + 230000000 : ℚ) / 1024)) ∧
    Function.Injective Variable.name ∧
    ∀ (v w : Int) (x y : Variable), ofInt v = .variable x → ofInt w = .variable y → x.name = y.name → v = w := by
  have hband : ∀ x : Variable, -10000000 < x.index → x.index ≤ 10000000 →
      ofInt (x.storage.origin + x.index) = .variable x := by
    intro x hlow hhigh
    have hspans : x.storage.Spans (x.storage.origin + x.index) := ⟨by omega, by omega⟩
    rw [ofInt_of_spans hspans, add_sub_cancel_left]
  refine ⟨fun s i => hband ⟨s, i⟩, ?_, fun _ => ofInt_eq_literal, fun _ => exists_ofInt_eq_fixed,
    fun _ _ => Variable.name_injective, ?_⟩
  · intro value hlow hhigh
    obtain ⟨s, hs⟩ := Storage.exists_spans hlow hhigh
    refine ⟨⟨s, value - s.origin⟩, ?_, ?_⟩
    · obtain ⟨habove, hbelow⟩ := hs
      simp only
      omega
    · rintro x ⟨hindex, hindex', rfl⟩
      have hx := hband x hindex hindex'
      rw [ofInt_of_spans hs] at hx
      exact (Operand.variable.inj hx).symm
  · intro v w x y hv hw hname
    rw [eq_of_ofInt_eq_variable hv, eq_of_ofInt_eq_variable hw, Variable.name_injective hname]

end Operand

end MapScript
