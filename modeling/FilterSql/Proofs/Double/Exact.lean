import FilterSql.Double.Basic
import Mathlib.Algebra.Order.Field.Power
import Mathlib.Algebra.Order.Field.Rat
import Mathlib.Tactic.Common

/-!
# The numbers of doubles

A finite double stands for a rational number (`Double.value?`).  Taking the integer part of a double
without a fractional part loses nothing (`Double.value?_eq_intCast_iff`).
-/

namespace FilterSql

namespace Binary

/-- The number of a datum; infinities and NaNs have none. -/
def Datum.value? : Datum → Option ℚ
  | .finite negative m e => some (if negative then -(m * 2 ^ e) else m * 2 ^ e)
  | _ => none

theorem zpow_mul_two_pow (e : ℤ) : (2 : ℚ) ^ e * ↑(2 ^ (-e).toNat : ℕ) = ↑(2 ^ e.toNat : ℕ) := by
  rw [Nat.cast_pow, Nat.cast_pow, Nat.cast_ofNat, ← zpow_natCast, ← zpow_natCast,
    ← zpow_add₀ two_ne_zero]
  congr 1
  omega

/-- A number of units `2 ^ e` is a natural number if no units are left over. -/
theorem mul_zpow_eq_natCast_iff {m k : ℕ} {e : ℤ} :
    (m : ℚ) * 2 ^ e = k ↔ m % 2 ^ (-e).toNat = 0 ∧ k = m * 2 ^ e.toNat / 2 ^ (-e).toNat := by
  have scaled : (m : ℚ) * 2 ^ e = k ↔ m * 2 ^ e.toNat = k * 2 ^ (-e).toNat := by
    have positive : (↑(2 ^ (-e).toNat : ℕ) : ℚ) ≠ 0 :=
      Nat.cast_ne_zero.2 (Nat.two_pow_pos _).ne'
    rw [← mul_left_inj' positive, mul_assoc, zpow_mul_two_pow, ← Nat.cast_mul, ← Nat.cast_mul,
      Nat.cast_inj]
  rw [scaled]
  -- Of the two powers one is 1.
  obtain he | he := le_total 0 e
  · obtain ⟨a, rfl⟩ := Int.eq_ofNat_of_zero_le he
    simp [Nat.mod_one, eq_comm]
  · obtain ⟨b, hb⟩ := Int.eq_ofNat_of_zero_le (Int.neg_nonneg_of_nonpos he)
    have small : e.toNat = 0 := by omega
    rw [hb, small, Int.toNat_natCast, Nat.pow_zero, Nat.mul_one]
    constructor
    · rintro rfl
      exact ⟨Nat.mul_mod_left _ _, (Nat.mul_div_cancel _ (Nat.two_pow_pos b)).symm⟩
    · rintro ⟨hmod, rfl⟩
      exact (Nat.div_mul_cancel (Nat.dvd_of_mod_eq_zero hmod)).symm

end Binary

namespace Double

/-- The number that a double stands for; infinities and NaNs stand for none. -/
def value? (x : Double) : Option ℚ := x.datum.value?

/-- A double stands for an integer if it has no fractional part; the integer is its integer part. -/
theorem value?_eq_intCast_iff {x : Double} {n : ℤ} :
    x.value? = some (n : ℚ) ↔ x.isIntegral = true ∧ x.truncate? = some n := by
  rw [value?, isIntegral, truncate?]
  cases x.datum with
  | nan => simp [Binary.Datum.value?]
  | infinite negative => simp [Binary.Datum.value?]
  | finite negative m e =>
    have whole {k : ℤ} : (m : ℚ) * 2 ^ e = k ↔
        m % 2 ^ (-e).toNat = 0 ∧ ↑(m * 2 ^ e.toNat / 2 ^ (-e).toNat : ℕ) = k := by
      constructor
      · intro h
        have nonneg : (0 : ℚ) ≤ k := h ▸ mul_nonneg m.cast_nonneg (zpow_nonneg zero_le_two e)
        obtain ⟨k, rfl⟩ := Int.eq_ofNat_of_zero_le (Int.cast_nonneg_iff.1 nonneg)
        obtain ⟨hmod, hk⟩ := Binary.mul_zpow_eq_natCast_iff.1 (by simpa using h)
        exact ⟨hmod, congrArg Int.ofNat hk.symm⟩
      · rintro ⟨hmod, rfl⟩
        exact Binary.mul_zpow_eq_natCast_iff.2 ⟨hmod, rfl⟩
    cases negative with
    | false => simp only [Binary.Datum.value?, Option.some.injEq, beq_iff_eq]; exact whole
    | true =>
      have opposite : -((m : ℚ) * 2 ^ e) = n ↔ (m : ℚ) * 2 ^ e = ↑(-n) := by
        rw [neg_eq_iff_eq_neg, Int.cast_neg]
      simp only [Binary.Datum.value?, Option.some.injEq, beq_iff_eq, if_true]
      rw [opposite, whole, neg_eq_iff_eq_neg]

end Double

end FilterSql
