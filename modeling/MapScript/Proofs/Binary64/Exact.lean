import Mathlib.Algebra.Order.Field.Rat
import Mathlib.Tactic.FieldSimp
import Mathlib.Tactic.NormNum
import MapScript.Binary64.Basic

/-!
# Quotients that need no rounding

A finite number stands for a rational number, `toRat?`. An integer of at most 53 binary digits divided by a power of two
is such a number, so that nothing is rounded (`toRat?_ofQuotient_two_pow`): the digits of the integer fill the
significand from the left, and only the exponent depends on the divisor.
-/

namespace MapScript.Binary64

/-- The rational number that a number stands for. -/
def toRat? (x : Binary64) : Option ℚ :=
  match x.magnitude with
  | .finite m e => some ((if x.isNegative then -m else m : ℚ) * 2 ^ e)
  | _ => none

/-! ### Signs and magnitudes of numbers made of parts -/

private theorem toNat_bits_ofParts {negative : Bool} {rest : Nat} (h : rest < 2 ^ 63) :
    (ofParts negative rest).bits.toNat = rest + if negative then 2 ^ 63 else 0 := by
  rw [ofParts, UInt64.toNat_ofNat']
  cases negative <;> simp <;> omega

theorem isNegative_ofParts {negative : Bool} {rest : Nat} (h : rest < 2 ^ 63) :
    (ofParts negative rest).isNegative = negative := by
  rw [isNegative, toNat_bits_ofParts h, Nat.shiftRight_eq_div_pow]
  cases negative <;> simp <;> omega

/-- A significand of 53 digits is read back with its exponent; its first digit is not stored. -/
theorem magnitude_ofParts {negative : Bool} {place m : Nat} (hlow : 2 ^ 52 ≤ m) (hhigh : m < 2 ^ 53)
    (hplace : place ≤ 2045) : (ofParts negative (place <<< 52 + m)).magnitude = .finite m (place - 1074) := by
  have hshift : place <<< 52 = place * 2 ^ 52 := Nat.shiftLeft_eq ..
  have hrest : place <<< 52 + m < 2 ^ 63 := by omega
  have hbits := @toNat_bits_ofParts negative _ hrest
  have hbiased : (ofParts negative (place <<< 52 + m)).bits.toNat >>> 52 % 2048 = place + 1 := by
    rw [hbits, Nat.shiftRight_eq_div_pow]
    cases negative <;> simp <;> omega
  have hfraction : (ofParts negative (place <<< 52 + m)).bits.toNat % (1 <<< 52) = m - 2 ^ 52 := by
    rw [hbits]
    cases negative <;> simp <;> omega
  have hsignificand : m - 2 ^ 52 + 1 <<< 52 = m := by
    rw [Nat.shiftLeft_eq]
    omega
  have hexponent : ((place + 1 : Nat) : Int) - 1075 = place - 1074 := by omega
  have hfinite : place + 1 ≠ 2047 := by omega
  simp only [magnitude, hbiased, hfraction, hsignificand, hexponent, hfinite, Nat.succ_ne_zero, if_false]

/-! ### The last place of a quotient -/

private theorem log2_lt_53 {n : Nat} (h₀ : n ≠ 0) (h : n < 2 ^ 53) : n.log2 < 53 := (Nat.log2_lt h₀).2 h

/-- Dividing by a power of two moves the last place and does nothing else. -/
private theorem lastPlace_two_pow {num k : Nat} (h : num ≠ 0) :
    lastPlace num (2 ^ k) = max ((num.log2 : Int) - k - 52) (-1074) := by
  have hfloor : ¬num <<< (-((num.log2 : Int) - k)).toNat < 2 ^ k <<< ((num.log2 : Int) - k).toNat := by
    have hplaces : k + ((num.log2 : Int) - k).toNat = num.log2 + (-((num.log2 : Int) - k)).toNat := by omega
    rw [Nat.not_lt, Nat.shiftLeft_eq, Nat.shiftLeft_eq, ← Nat.pow_add, hplaces, Nat.pow_add]
    exact Nat.mul_le_mul_right _ (Nat.log2_self_le h)
  simp only [lastPlace, Nat.log2_two_pow, if_neg hfloor]

private theorem roundDiv_mul {den : Nat} (h : 0 < den) (n : Nat) : roundDiv (n * den) den = n := by
  rw [roundDiv, Nat.mul_div_cancel n h, Nat.mul_mod_left]
  exact if_neg (by omega)

/-- The digits of a number, moved up to the first place of a significand. -/
private def significand (n : Nat) : Nat := n * 2 ^ (52 - n.log2)

private theorem significand_bounds {n : Nat} (h₀ : n ≠ 0) (h : n < 2 ^ 53) :
    2 ^ 52 ≤ significand n ∧ significand n < 2 ^ 53 := by
  have hlog := log2_lt_53 h₀ h
  constructor
  · calc 2 ^ 52 = 2 ^ n.log2 * 2 ^ (52 - n.log2) := by rw [← Nat.pow_add]; congr 1; omega
      _ ≤ significand n := Nat.mul_le_mul_right _ (Nat.log2_self_le h₀)
  · calc significand n < 2 ^ (n.log2 + 1) * 2 ^ (52 - n.log2) :=
        Nat.mul_lt_mul_of_pos_right Nat.lt_log2_self (Nat.two_pow_pos _)
      _ = 2 ^ 53 := by rw [← Nat.pow_add]; congr 1; omega

/-- The significand of a quotient by a power of two is that of the dividend. -/
private theorem ofRatio_two_pow {negative : Bool} {num k : Nat} (h₀ : num ≠ 0) (h : num < 2 ^ 53) (hk : k ≤ 1022) :
    ofRatio negative num (2 ^ k) = ofParts negative ((num.log2 + 1022 - k) <<< 52 + significand num) := by
  have hlog := log2_lt_53 h₀ h
  -- The quotient is far above the subnormal numbers, so its last place is not cut off.
  have hlast : lastPlace num (2 ^ k) = (num.log2 : Int) - k - 52 := by
    rw [lastPlace_two_pow h₀]
    omega
  have hup : (-((num.log2 : Int) - k - 52)).toNat = 52 - num.log2 + k := by omega
  have hdown : ((num.log2 : Int) - k - 52).toNat = 0 := by omega
  have hplace : ((num.log2 : Int) - k - 52 + 1074).toNat = num.log2 + 1022 - k := by omega
  have hround : roundDiv (num <<< (52 - num.log2 + k)) (2 ^ k <<< 0) = significand num := by
    rw [Nat.shiftLeft_eq, Nat.pow_add, ← Nat.mul_assoc, Nat.shiftLeft_zero]
    exact roundDiv_mul (Nat.two_pow_pos k) _
  have hfinite : ¬2047 <<< 52 ≤ (num.log2 + 1022 - k) <<< 52 + significand num := by
    have hhigh := (significand_bounds h₀ h).2
    rw [Nat.shiftLeft_eq, Nat.shiftLeft_eq]
    omega
  rw [ofRatio, if_neg h₀]
  simp only [hlast, hup, hdown, hplace, hround, if_neg hfinite]

/-! ### Values -/

private theorem significand_mul_zpow {n k : Nat} (h₀ : n ≠ 0) (h : n < 2 ^ 53) (hk : k ≤ 1022) :
    (significand n : ℚ) * 2 ^ (((n.log2 + 1022 - k : Nat) : Int) - 1074) = n / 2 ^ k := by
  have hlog := log2_lt_53 h₀ h
  have hexponent : ((52 - n.log2 : Nat) : Int) + (((n.log2 + 1022 - k : Nat) : Int) - 1074) = -(k : Int) := by omega
  calc (significand n : ℚ) * 2 ^ (((n.log2 + 1022 - k : Nat) : Int) - 1074)
      = n * (2 ^ ((52 - n.log2 : Nat) : Int) * 2 ^ (((n.log2 + 1022 - k : Nat) : Int) - 1074)) := by
        rw [significand, Nat.cast_mul, Nat.cast_pow, Nat.cast_ofNat, zpow_natCast, mul_assoc]
    _ = n * 2 ^ (-(k : Int)) := by rw [← zpow_add₀ two_ne_zero, hexponent]
    _ = n / 2 ^ k := by rw [zpow_neg, zpow_natCast, div_eq_mul_inv]

private theorem toRat?_ofRatio_two_pow {negative : Bool} {num k : Nat} (h₀ : num ≠ 0) (h : num < 2 ^ 53)
    (hk : k ≤ 1022) : (ofRatio negative num (2 ^ k)).toRat? = some ((if negative then -num else num : ℚ) / 2 ^ k) := by
  have hlog := log2_lt_53 h₀ h
  obtain ⟨hlow, hhigh⟩ := significand_bounds h₀ h
  have hrest : (num.log2 + 1022 - k) <<< 52 + significand num < 2 ^ 63 := by
    rw [Nat.shiftLeft_eq]
    omega
  have hvalue := significand_mul_zpow h₀ h hk
  rw [toRat?, ofRatio_two_pow h₀ h hk, magnitude_ofParts hlow hhigh (by omega), isNegative_ofParts hrest]
  cases negative with
  | false => simp only [Bool.false_eq_true, if_false, hvalue]
  | true => simp only [if_true, neg_mul, hvalue, neg_div]

/-- Dividing an integer of at most 53 digits by a power of two rounds nothing. -/
theorem toRat?_ofQuotient_two_pow {n : Int} {k : Nat} (h : n.natAbs < 2 ^ 53) (hk : k ≤ 1022) :
    (ofQuotient n (2 ^ k)).toRat? = some ((n : ℚ) / 2 ^ k) := by
  by_cases h₀ : n = 0
  · subst h₀
    have hzero : (zero false).toRat? = some 0 := by
      have hmagnitude : (zero false).magnitude = .finite 0 (-1074) := by decide
      rw [toRat?, hmagnitude]
      simp
    simpa [ofQuotient, ofRatio] using hzero
  · rw [ofQuotient, toRat?_ofRatio_two_pow (by omega) h hk]
    congr 2
    by_cases hn : n < 0
    · have habs : (n.natAbs : Int) = -n := by omega
      simp [hn, ← Int.cast_natCast (R := ℚ), habs]
    · have habs : (n.natAbs : Int) = n := by omega
      simp [hn, ← Int.cast_natCast (R := ℚ), habs]

end MapScript.Binary64
