import FilterSql.Double.Basic
import Mathlib.Tactic.Common

/-!
# Equal doubles

The number of a double has one mantissa and one exponent, so doubles that compare as equal are the
same, or both are zeros (`Double.eq_or_isZero_of_numEq`).
-/

namespace FilterSql

namespace Binary.Format

/-- The weight of the sign in a word. -/
def signWeight (negative : Bool) : Nat := if negative then 2 ^ 63 else 0

theorem signWeight_decide {word : Nat} (h : word < 2 ^ 64) :
    signWeight (decide (2 ^ 63 ≤ word)) = 2 ^ 63 * (word / 2 ^ 63) := by
  by_cases large : 2 ^ 63 ≤ word
  · rw [decide_eq_true large, signWeight, if_pos rfl]
    omega
  · rw [decide_eq_false large, signWeight, if_neg Bool.false_ne_true]
    omega

/-- What a word of 64 bits stands for. -/
theorem datum_binary64 (word : Nat) : binary64.datum word =
    if word % 2 ^ 63 / 2 ^ 52 = 2047 then
      if word % 2 ^ 63 % 2 ^ 52 = 0 then .infinite (decide (2 ^ 63 ≤ word)) else .nan
    else if word % 2 ^ 63 / 2 ^ 52 = 0 then
      .finite (decide (2 ^ 63 ≤ word)) (word % 2 ^ 63 % 2 ^ 52) (-1074)
    else
      .finite (decide (2 ^ 63 ≤ word)) (2 ^ 52 + word % 2 ^ 63 % 2 ^ 52)
        (-1074 + (word % 2 ^ 63 / 2 ^ 52 : Nat) - 1) := rfl

/-- The sign, the mantissa and the exponent of a finite datum make up its word. -/
theorem datum_finite {word : Nat} {negative : Bool} {m : Nat} {e : Int} (hword : word < 2 ^ 64)
    (h : binary64.datum word = .finite negative m e) :
    m < 2 ^ 53 ∧ (e = -1074 ∨ -1074 < e ∧ 2 ^ 52 ≤ m) ∧
      word = signWeight negative + (e + 1074).toNat * 2 ^ 52 + m := by
  rw [datum_binary64] at h
  split_ifs at h with special infinite subnormal
  · obtain ⟨rfl, rfl, rfl⟩ := Datum.finite.inj h
    rw [signWeight_decide hword]
    omega
  · obtain ⟨rfl, rfl, rfl⟩ := Datum.finite.inj h
    rw [signWeight_decide hword]
    omega

theorem datum_infinite {word : Nat} {negative : Bool} (hword : word < 2 ^ 64)
    (h : binary64.datum word = .infinite negative) :
    word = signWeight negative + 2047 * 2 ^ 52 := by
  rw [datum_binary64] at h
  split_ifs at h with special infinite subnormal
  obtain rfl := Datum.infinite.inj h
  rw [signWeight_decide hword]
  omega

end Binary.Format

namespace Double

open Binary

/-- The double is one of the two zeros. -/
def IsZero (x : Double) : Prop := ∃ negative, x = zero negative

/-- The zeros are equal. -/
theorem numEq_zero (negative : Bool) : (zero negative).numEq (zero !negative) = true := by
  cases negative <;> decide

theorem zero_ne (negative : Bool) : zero negative ≠ zero !negative := by
  cases negative <;> decide

theorem bits_zero (negative : Bool) : (zero negative).bits.toNat = Format.signWeight negative := by
  cases negative <;> decide

theorem eq_of_toNat {x y : Double} (h : x.bits.toNat = y.bits.toNat) : x = y :=
  congrArg Double.mk (UInt64.toNat_inj.1 h)

theorem isZero_of_datum {x : Double} {negative : Bool} {e : Int}
    (h : x.datum = .finite negative 0 e) : x.IsZero := by
  obtain ⟨-, exponent, word⟩ := Format.datum_finite x.bits.toNat_lt h
  refine ⟨negative, eq_of_toNat ?_⟩
  rw [bits_zero, word]
  omega

/-- A number has no second mantissa of 53 bits at a larger exponent. -/
theorem exponent_le {m n : Nat} {e f : Int} (hm : m < 2 ^ 53)
    (hf : f = -1074 ∨ -1074 < f ∧ 2 ^ 52 ≤ n) (he : -1074 ≤ e)
    (h : m * 2 ^ (e - min e f).toNat = n * 2 ^ (f - min e f).toNat) : f ≤ e := by
  by_contra larger
  have least : min e f = e := by omega
  obtain ⟨k, hk⟩ : ∃ k, (f - e).toNat = k + 1 := ⟨(f - e).toNat - 1, by omega⟩
  rw [least, hk, Int.sub_self, Int.toNat_zero, Nat.pow_zero, Nat.mul_one, Nat.pow_succ] at h
  have positive : 0 < 2 ^ k := Nat.two_pow_pos k
  have large : n * 2 ≤ m := by
    rw [h]
    exact Nat.mul_le_mul_left n (by omega)
  omega

/-- Finite doubles of the same number are the same or zeros. -/
theorem eq_or_isZero {x y : Double} {s t : Bool} {m n : Nat} {e f : Int}
    (hx : x.datum = .finite s m e) (hy : y.datum = .finite t n f)
    (h : scaled s m e (min e f) = scaled t n f (min e f)) : x = y ∨ x.IsZero ∧ y.IsZero := by
  obtain ⟨hm, he, wordx⟩ := Format.datum_finite x.bits.toNat_lt hx
  obtain ⟨hn, hf, wordy⟩ := Format.datum_finite y.bits.toNat_lt hy
  have positive (k : Nat) : 2 ^ k ≠ 0 := Nat.ne_of_gt (Nat.two_pow_pos k)
  unfold scaled at h
  by_cases sign : s = t
  · left
    subst sign
    have units : m * 2 ^ (e - min e f).toNat = n * 2 ^ (f - min e f).toNat := by
      cases s
      · exact Int.ofNat.inj h
      · exact Int.ofNat.inj (Int.neg_inj.1 h)
    have hfe : f ≤ e := exponent_le hm hf (by omega) units
    have hef : e ≤ f := exponent_le hn he (by omega) (by rw [Int.min_comm f e, units])
    obtain rfl := Int.le_antisymm hfe hef
    obtain rfl := Nat.mul_right_cancel (Nat.pos_of_ne_zero (positive _)) units
    exact eq_of_toNat (wordx.trans wordy.symm)
  · right
    have units : m * 2 ^ (e - min e f).toNat = 0 ∧ n * 2 ^ (f - min e f).toNat = 0 := by
      generalize m * 2 ^ (e - min e f).toNat = a at *
      generalize n * 2 ^ (f - min e f).toNat = b at *
      cases s <;> cases t <;> first | exact absurd rfl sign | (simp at h; omega)
    obtain rfl := (Nat.mul_eq_zero.1 units.1).resolve_right (positive _)
    obtain rfl := (Nat.mul_eq_zero.1 units.2).resolve_right (positive _)
    exact ⟨isZero_of_datum hx, isZero_of_datum hy⟩

/-- Doubles that compare as equal are the same or zeros. -/
theorem eq_or_isZero_of_numEq {x y : Double} (h : x.numEq y = true) :
    x = y ∨ x.IsZero ∧ y.IsZero := by
  rw [numEq, compare?] at h
  cases hx : x.datum with
  | nan => simp [hx] at h
  | infinite s =>
    cases hy : y.datum with
    | infinite t =>
      obtain rfl : s = t := by
        by_contra hst
        cases s <;> simp_all
      left
      exact eq_of_toNat ((Format.datum_infinite x.bits.toNat_lt hx).trans
        (Format.datum_infinite y.bits.toNat_lt hy).symm)
    | nan => simp [hx, hy] at h
    | finite t n f => cases s <;> simp [hx, hy] at h
  | finite s m e =>
    cases hy : y.datum with
    | finite t n f =>
      rw [hx, hy] at h
      exact eq_or_isZero hx hy (by simpa using h)
    | nan => simp [hx, hy] at h
    | infinite t => cases t <;> simp [hx, hy] at h

end Double

end FilterSql
