import FilterSql.Decimal
import FilterSql.Proofs.Double.Rounding
import Mathlib.Order.Compare

/-!
# Arithmetic of doubles

Doubles compare as the numbers that they stand for (`compare?_of_value?`).  Products, quotients and
sums are the exact results rounded, as long as these are in the range of doubles.
-/

namespace FilterSql

namespace Double

open Binary

/-! ## Comparisons -/

/-- The units of a number times their size. -/
theorem cast_scaled_mul (negative : Bool) (m : ℕ) {e unit : ℤ} (h : unit ≤ e) :
    (scaled negative m e unit : ℚ) * 2 ^ unit =
      if negative then -((m : ℚ) * 2 ^ e) else (m : ℚ) * 2 ^ e := by
  have magnitude : ((m * 2 ^ (e - unit).toNat : ℕ) : ℚ) * 2 ^ unit = m * 2 ^ e := by
    obtain ⟨j, hj⟩ := Int.eq_ofNat_of_zero_le (Int.sub_nonneg.2 h)
    have exponent : e = j + unit := by omega
    rw [hj, Int.toNat_natCast, exponent, zpow_add₀ two_ne_zero, zpow_natCast]
    push_cast
    ring
  unfold scaled
  cases negative
  · exact magnitude
  · rw [← magnitude]
    push_cast
    exact neg_mul _ _

/-- Doubles compare as the numbers that they stand for. -/
theorem compare?_of_value? {x y : Double} {a b : ℚ} (hx : x.value? = some a)
    (hy : y.value? = some b) : x.compare? y = some (compare a b) := by
  rw [value?] at hx hy
  cases hdx : x.datum with
  | finite s m e =>
    cases hdy : y.datum with
    | finite t n f =>
      have valuex := cast_scaled_mul s m (min_le_left e f)
      have valuey := cast_scaled_mul t n (min_le_right e f)
      rw [hdx] at hx
      rw [hdy] at hy
      have ha : (scaled s m e (min e f) : ℚ) * 2 ^ min e f = a := valuex.trans (Option.some.inj hx)
      have hb : (scaled t n f (min e f) : ℚ) * 2 ^ min e f = b := valuey.trans (Option.some.inj hy)
      have units : StrictMono fun k : ℤ => (k : ℚ) * 2 ^ min e f := fun j k hjk =>
        mul_lt_mul_of_pos_right (Int.cast_lt.2 hjk) (zpow_pos two_pos _)
      have same : compare (scaled s m e (min e f)) (scaled t n f (min e f)) = compare a b := by
        rw [← ha, ← hb, ← cmp_eq_compare, ← cmp_eq_compare]
        exact (units.cmp_map_eq _ _).symm
      rw [compare?, hdx, hdy, ← same]
    | nan | infinite => simp [hdy, Datum.value?] at hy
  | nan | infinite => simp [hdx, Datum.value?] at hx

theorem numEq_iff {x y : Double} {a b : ℚ} (hx : x.value? = some a) (hy : y.value? = some b) :
    x.numEq y = true ↔ a = b := by
  rw [numEq, compare?_of_value? hx hy]
  simp

/-! ## Operations -/

section

variable {x y : Double} {s t : Bool} {a b : ℚ}

/-- The opposite sign changes the sign only. -/
theorem Holds.neg (hx : x.Holds s a) : x.neg.Holds (!s) a := by
  obtain ⟨m, e, hdx, rfl⟩ := hx
  refine ⟨m, e, ?_, rfl⟩
  have hword := x.bits.toNat_lt
  have magnitude : (x.bits.toNat + 2 ^ 63) % 2 ^ 64 % 2 ^ 63 = x.bits.toNat % 2 ^ 63 := by omega
  have sign : decide (2 ^ 63 ≤ (x.bits.toNat + 2 ^ 63) % 2 ^ 64) =
      !decide (2 ^ 63 ≤ x.bits.toNat) := by
    rw [← decide_not]
    exact decide_eq_decide.2 (by omega)
  rw [datum, Format.datum_binary64] at hdx
  rw [Double.neg, datum_ofWord (Nat.mod_lt _ (by decide)), Format.datum_binary64, magnitude, sign]
  split_ifs at hdx ⊢ <;> obtain ⟨rfl, rfl, rfl⟩ := Datum.finite.inj hdx <;> rfl

theorem two_pow_div_two_pow (e : ℤ) :
    ((2 ^ e.toNat : ℕ) : ℚ) / (2 ^ (-e).toNat : ℕ) = 2 ^ e := by
  have positive : ((2 ^ (-e).toNat : ℕ) : ℚ) ≠ 0 := Nat.cast_ne_zero.2 (Nat.two_pow_pos _).ne'
  rw [← zpow_mul_two_pow, mul_div_cancel_right₀ _ positive]

/-- A product is the exact one rounded. -/
theorem Holds.mul (hx : x.Holds s a) (hy : y.Holds t b) (h : InRange (a * b)) :
    ∃ c, (x.mulFinite y).Holds (s != t) c ∧ Rounded (a * b) c := by
  obtain ⟨m, e, hdx, rfl⟩ := hx
  obtain ⟨n, f, hdy, rfl⟩ := hy
  have quotient : ((m * n * 2 ^ (e + f).toNat : ℕ) : ℚ) / (2 ^ (-(e + f)).toNat : ℕ) =
      m * 2 ^ e * (n * 2 ^ f) := by
    rw [Nat.cast_mul, mul_div_assoc, two_pow_div_two_pow, zpow_add₀ two_ne_zero]
    push_cast
    ring
  rw [mulFinite, hdx, hdy, ← quotient]
  exact exists_holds_ofQuotient _ (Nat.two_pow_pos _).ne' (quotient ▸ h)

/-- A quotient is the exact one rounded. -/
theorem Holds.div (hx : x.Holds s a) (hy : y.Holds t b) (hb : b ≠ 0) (h : InRange (a / b)) :
    ∃ c, (x.divFinite y).Holds (s != t) c ∧ Rounded (a / b) c := by
  obtain ⟨m, e, hdx, rfl⟩ := hx
  obtain ⟨n, f, hdy, rfl⟩ := hy
  have hn : n ≠ 0 := by
    rintro rfl
    simp at hb
  have quotient : ((m * 2 ^ (e - f).toNat : ℕ) : ℚ) / (n * 2 ^ (f - e).toNat : ℕ) =
      m * 2 ^ e / (n * 2 ^ f) := by
    have scaled := cast_scaled m n (f - e)
    rw [neg_sub] at scaled
    rw [scaled, zpow_sub₀ two_ne_zero]
    field_simp
  rw [divFinite, hdx, hdy, ← quotient]
  exact exists_holds_ofQuotient _ (Nat.mul_ne_zero hn (Nat.two_pow_pos _).ne') (quotient ▸ h)

/-- A sum is the exact one rounded. -/
theorem Holds.add (hx : x.Holds s a) (hy : y.Holds t b) (h : InRange (a + b)) :
    ∃ c, (Decimal.addMagnitudes x y).Holds false c ∧ Rounded (a + b) c := by
  obtain ⟨m, e, hdx, rfl⟩ := hx
  obtain ⟨n, f, hdy, rfl⟩ := hy
  have shifted (k : ℕ) {g : ℤ} (hg : min e f ≤ g) :
      ((k * 2 ^ (g - min e f).toNat : ℕ) : ℚ) * 2 ^ min e f = k * 2 ^ g := by
    simpa [scaled] using cast_scaled_mul false k hg
  have quotient : (((m * 2 ^ (e - min e f).toNat + n * 2 ^ (f - min e f).toNat) *
      2 ^ (min e f).toNat : ℕ) : ℚ) / (2 ^ (-min e f).toNat : ℕ) = m * 2 ^ e + n * 2 ^ f := by
    rw [Nat.cast_mul, mul_div_assoc, two_pow_div_two_pow, Nat.cast_add, add_mul,
      shifted m (min_le_left e f), shifted n (min_le_right e f)]
  rw [Decimal.addMagnitudes, hdx, hdy, ← quotient]
  exact exists_holds_ofQuotient _ (Nat.two_pow_pos _).ne' (quotient ▸ h)

/-- The nearest integer, halves up. -/
theorem abs_halfUp_sub_le (num : ℕ) {den : ℕ} (h : 0 < den) :
    |(((2 * num + den) / (2 * den) : ℕ) : ℚ) - num / den| ≤ 1 / 2 := by
  have hden : (0 : ℚ) < 2 * den := by positivity
  have half : ((2 * num + den : ℕ) : ℚ) / (2 * den : ℕ) = num / den + 1 / 2 := by
    push_cast
    field_simp
  have low : (0 : ℚ) ≤ (((2 * num + den) % (2 * den) : ℕ) : ℚ) / (2 * den : ℕ) := by positivity
  have high : (((2 * num + den) % (2 * den) : ℕ) : ℚ) / (2 * den : ℕ) < 1 := by
    rw [div_lt_one (by exact_mod_cast hden)]
    exact Nat.cast_lt.2 (Nat.mod_lt _ (by omega))
  rw [cast_div_eq _ (by omega)] at half
  rw [abs_le]
  constructor <;> linarith

/-- A double is rounded to an integer, which is rounded to a double. -/
theorem Holds.roundAway (hx : x.Holds s a) : ∃ n : ℕ, |(n : ℚ) - a| ≤ 1 / 2 ∧
    (InRange n → ∃ c, (Decimal.roundAway x).Holds s c ∧ Rounded n c) := by
  obtain ⟨m, e, hdx, rfl⟩ := hx
  have near := abs_halfUp_sub_le (m * 2 ^ e.toNat) (Nat.two_pow_pos (-e).toNat)
  rw [Nat.cast_mul, mul_div_assoc, two_pow_div_two_pow] at near
  refine ⟨_, near, fun h => ?_⟩
  rw [Decimal.roundAway, hdx]
  have quotient (n : ℕ) : (n : ℚ) = n / (1 : ℕ) := by simp
  rw [quotient] at h ⊢
  exact exists_holds_ofQuotient _ one_ne_zero h

end

end Double

end FilterSql
