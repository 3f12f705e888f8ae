import Mathlib.Data.Nat.Init
import MapScript.Text.Hex

/-!
# Hexadecimal texts are distinct

A number is written as its quotient by sixteen and one more digit (`digits_of_le`), so that its digits tell it
(`digits_injective`). No digit is a sign, and so signed numbers have distinct texts too (`signed_injective`). Zeros in
front of the digits tell nothing but the width (`padded_injective`).
-/

namespace MapScript.Hex

/-- The digit of a number below sixteen. -/
def digit (n : Nat) : Char := n.digitChar.toUpper

private theorem digit_injective {a b : Nat} (ha : a < 16) (hb : b < 16) (h : digit a = digit b) : a = b := by
  have hall : ∀ a b : Fin 16, digit a = digit b → a = b := by decide
  have hfin := hall ⟨a, ha⟩ ⟨b, hb⟩ h
  simpa using hfin

theorem digits_of_lt {n : Nat} (h : n < 16) : digits n = [digit n] := by
  simp [digits, digit, Nat.toDigits_of_lt_base h]

theorem digits_of_le {n : Nat} (h : 16 ≤ n) : digits n = digits (n / 16) ++ [digit (n % 16)] := by
  simp [digits, digit, Nat.toDigits_of_base_le (by omega) h]

private theorem two_le_length_digits {n : Nat} (h : 16 ≤ n) : 2 ≤ (digits n).length := by
  have hfront : 0 < (digits (n / 16)).length := by
    rw [digits, List.length_map]
    exact Nat.length_toDigits_pos
  rw [digits_of_le h, List.length_append, List.length_singleton]
  omega

/-- What holds of the sixteen digits holds of the digits of a number. -/
theorem forall_mem_digits {P : Char → Prop} (h : ∀ a : Fin 16, P (digit a)) (n : Nat) : ∀ c ∈ digits n, P c := by
  induction n using Nat.strongRecOn with
  | ind n ih =>
    by_cases hn : n < 16
    · rw [digits_of_lt hn, List.forall_mem_singleton]
      exact h ⟨n, hn⟩
    · rw [digits_of_le (by omega), List.forall_mem_append, List.forall_mem_singleton]
      exact ⟨ih (n / 16) (by omega), h ⟨n % 16, Nat.mod_lt n (by omega)⟩⟩

/-- What is no digit is not among the digits of a number. -/
theorem notMem_digits {c : Char} (hc : ∀ a : Fin 16, digit a ≠ c) (n : Nat) : c ∉ digits n :=
  fun hmem => forall_mem_digits (P := (· ≠ c)) hc n c hmem rfl

theorem minus_notMem_digits (n : Nat) : '-' ∉ digits n := notMem_digits (by decide) n

/-- The digits of a number tell the number. -/
theorem digits_injective {n m : Nat} (h : digits n = digits m) : n = m := by
  induction n using Nat.strongRecOn generalizing m with
  | ind n ih =>
    by_cases hn₁ : n < 16
    · by_cases hm₁ : m < 16
      · rw [digits_of_lt hn₁, digits_of_lt hm₁, List.singleton_inj] at h
        exact digit_injective hn₁ hm₁ h
      · -- one digit against two or more
        have hlength := two_le_length_digits (by omega : 16 ≤ m)
        rw [← h, digits_of_lt hn₁, List.length_singleton] at hlength
        omega
    · by_cases hm₁ : m < 16
      · have hlength := two_le_length_digits (by omega : 16 ≤ n)
        rw [h, digits_of_lt hm₁, List.length_singleton] at hlength
        omega
      · rw [digits_of_le (by omega : 16 ≤ n), digits_of_le (by omega : 16 ≤ m)] at h
        obtain ⟨hfront, hlast⟩ := List.append_inj' h rfl
        have hquotient := ih (n / 16) (by omega) hfront
        have hremainder := digit_injective (by omega) (by omega) (List.singleton_inj.1 hlast)
        omega

private theorem sign_of_neg {n : Int} (h : n < 0) : sign n = ['-'] := if_pos h

private theorem sign_of_nonneg {n : Int} (h : 0 ≤ n) : sign n = [] := if_neg (by omega)

/-- A number that is not negative is written without a sign. -/
theorem signed_natCast (n : Nat) : signed n = .ofChars (digits n) := by
  rw [signed, sign_of_nonneg (Int.natCast_nonneg n), Int.natAbs_natCast, List.nil_append]

/-- The text of an integer tells the integer. -/
theorem signed_injective {n m : Int} (h : signed n = signed m) : n = m := by
  have hchars := Text.ofChars_injective h
  by_cases hn : n < 0
  · rw [sign_of_neg hn] at hchars
    by_cases hm : m < 0
    · rw [sign_of_neg hm] at hchars
      have := digits_injective (List.append_cancel_left hchars)
      omega
    · rw [sign_of_nonneg (by omega), List.nil_append] at hchars
      have hminus : '-' ∈ digits m.natAbs := by simp [← hchars]
      exact absurd hminus (minus_notMem_digits m.natAbs)
  · rw [sign_of_nonneg (by omega), List.nil_append] at hchars
    by_cases hm : m < 0
    · rw [sign_of_neg hm] at hchars
      have hminus : '-' ∈ digits n.natAbs := by simp [hchars]
      exact absurd hminus (minus_notMem_digits n.natAbs)
    · rw [sign_of_nonneg (by omega), List.nil_append] at hchars
      have := digits_injective hchars
      omega

/-! ### Digits behind zeros -/

/-- The digits of a number with zeros in front of them up to a width. -/
private def filled (width n : Nat) : List Char := List.replicate (width - (digits n).length) '0' ++ digits n

private theorem filled_one (n : Nat) : filled 1 n = digits n := by
  have hpos : 0 < (digits n).length := by
    rw [digits, List.length_map]
    exact Nat.length_toDigits_pos
  rw [filled, show 1 - (digits n).length = 0 by omega, List.replicate_zero, List.nil_append]

private theorem filled_succ {width : Nat} (hw : 1 ≤ width) (n : Nat) :
    filled (width + 1) n = filled width (n / 16) ++ [digit (n % 16)] := by
  by_cases hn : n < 16
  · -- all that stands in front of the only digit is zeros
    have hzeros : filled width 0 = List.replicate width '0' := by
      have hzero : digits 0 = ['0'] := by decide
      obtain ⟨k, rfl⟩ : ∃ k, width = k + 1 := ⟨width - 1, by omega⟩
      rw [filled, hzero, List.replicate_succ']
      rfl
    rw [Nat.div_eq_of_lt hn, Nat.mod_eq_of_lt hn, hzeros, filled, digits_of_lt hn]
    rfl
  · have hdigits := digits_of_le (by omega : 16 ≤ n)
    have hlength : width + 1 - (digits n).length = width - (digits (n / 16)).length := by
      rw [hdigits, List.length_append, List.length_singleton]
      omega
    rw [filled, hlength, hdigits, filled, List.append_assoc]

private theorem filled_injective {width : Nat} (hw : 1 ≤ width) {n m : Nat} (h : filled width n = filled width m) :
    n = m := by
  induction width, hw using Nat.le_induction generalizing n m with
  | base =>
    rw [filled_one, filled_one] at h
    exact digits_injective h
  | succ width hw ih =>
    rw [filled_succ hw, filled_succ hw] at h
    obtain ⟨hfront, hlast⟩ := List.append_inj' h rfl
    have hquotient := ih hfront
    have hremainder := digit_injective (by omega) (by omega) (List.singleton_inj.1 hlast)
    omega

/-- The padded text of a number that is not negative tells the number. -/
theorem padded_injective {width : Nat} (hw : 1 ≤ width) {n m : Int} (hn : 0 ≤ n) (hm : 0 ≤ m)
    (h : padded width n = padded width m) : n = m := by
  have hfilled : ∀ {k : Int}, 0 ≤ k → padded width k = .ofChars (filled width k.natAbs) := by
    intro k hk
    rw [padded, sign_of_nonneg hk, List.nil_append, List.length_nil, Nat.sub_zero]
    rfl
  rw [hfilled hn, hfilled hm] at h
  have := filled_injective hw (Text.ofChars_injective h)
  omega

end MapScript.Hex
