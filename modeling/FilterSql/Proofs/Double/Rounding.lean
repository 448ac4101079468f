import FilterSql.Proofs.Double.Equality
import FilterSql.Proofs.Double.Exact
import Mathlib.Algebra.Order.Field.Basic
import Mathlib.Tactic.FieldSimp
import Mathlib.Tactic.Linarith
import Mathlib.Tactic.Positivity
import Mathlib.Tactic.Ring

/-!
# Rounding to doubles

The nearest double to a quotient in the range of doubles has the sign asked for and the magnitude of
the quotient, rounded (`Double.exists_holds_ofQuotient`): off by `2⁻⁵³` of it at most, unchanged if
it has no more than 53 bits, and an integer if it is one (`Double.Rounded`).  Words are taken apart
into units of their last place for this, since `Format.magnitude` counts places and units in one.
-/

namespace FilterSql

namespace Binary

/-! ## Quotients -/

theorem cast_div_eq (num : ℕ) {den : ℕ} (h : 0 < den) :
    (num : ℚ) / den = (num / den : ℕ) + ((num % den : ℕ) : ℚ) / den := by
  have hden : (den : ℚ) ≠ 0 := Nat.cast_ne_zero.2 h.ne'
  have split : (num : ℚ) = den * (num / den : ℕ) + (num % den : ℕ) := by
    exact_mod_cast (Nat.div_add_mod num den).symm
  rw [eq_comm, ← mul_left_inj' hden, add_mul, div_mul_cancel₀ _ hden, div_mul_cancel₀ _ hden,
    mul_comm, ← split]

/-- A quotient is rounded down if its fraction is at most a half, and up if it is at least a
half. -/
theorem roundQuotient_cases (num den : ℕ) :
    roundQuotient num den = num / den ∧ 2 * (num % den) ≤ den ∨
      roundQuotient num den = num / den + 1 ∧ den ≤ 2 * (num % den) := by
  unfold roundQuotient
  dsimp only
  split_ifs <;> omega

/-- Rounding is off by a half at most. -/
theorem abs_roundQuotient_sub_le (num : ℕ) {den : ℕ} (h : 0 < den) :
    |(roundQuotient num den : ℚ) - num / den| ≤ 1 / 2 := by
  have hden : (0 : ℚ) < den := Nat.cast_pos.2 h
  have low : (0 : ℚ) ≤ ((num % den : ℕ) : ℚ) / den := by positivity
  have high : ((num % den : ℕ) : ℚ) / den < 1 :=
    (div_lt_one hden).2 (Nat.cast_lt.2 (Nat.mod_lt num h))
  rw [cast_div_eq num h]
  obtain ⟨hround, hrest⟩ | ⟨hround, hrest⟩ := roundQuotient_cases num den
  · have half : ((num % den : ℕ) : ℚ) / den ≤ 1 / 2 := by
      rw [div_le_div_iff₀ hden two_pos]
      exact_mod_cast (by omega : num % den * 2 ≤ 1 * den)
    rw [hround, abs_le]
    constructor <;> linarith
  · have half : 1 / 2 ≤ ((num % den : ℕ) : ℚ) / den := by
      rw [div_le_div_iff₀ two_pos hden]
      exact_mod_cast (by omega : 1 * den ≤ num % den * 2)
    rw [hround, abs_le]
    push_cast
    constructor <;> linarith

/-- Integers are not changed by rounding. -/
theorem roundQuotient_eq {num den k : ℕ} (h : 0 < den) (hk : (num : ℚ) / den = k) :
    roundQuotient num den = k := by
  have near := abs_roundQuotient_sub_le num h
  rw [hk] at near
  have close : |((roundQuotient num den : ℤ) - k : ℤ)| < 1 := by
    have : |((roundQuotient num den : ℚ)) - k| < 1 := near.trans_lt (by norm_num)
    exact_mod_cast this
  have := Int.abs_lt_one_iff.1 close
  omega

/-- The quotient in units of a power of two. -/
theorem cast_scaled (num den : ℕ) (place : ℤ) :
    ((num * 2 ^ (-place).toNat : ℕ) : ℚ) / (den * 2 ^ place.toNat : ℕ) =
      num / den / 2 ^ place := by
  have positive : ((2 ^ (-place).toNat : ℕ) : ℚ) ≠ 0 := Nat.cast_ne_zero.2 (Nat.two_pow_pos _).ne'
  have power : ((2 ^ place.toNat : ℕ) : ℚ) = 2 ^ place * (2 ^ (-place).toNat : ℕ) :=
    (zpow_mul_two_pow place).symm
  rw [Nat.cast_mul, Nat.cast_mul, power, div_div, ← mul_assoc, mul_div_mul_right _ _ positive]

theorem two_pow_log2_le {n : ℕ} (h : n ≠ 0) : (2 : ℚ) ^ (n.log2 : ℤ) ≤ n := by
  rw [zpow_natCast]
  exact_mod_cast Nat.log2_self_le h

theorem lt_two_pow_log2 (n : ℕ) : (n : ℚ) < 2 ^ (n.log2 + 1 : ℤ) := by
  have : (n : ℚ) < 2 ^ (n.log2 + 1) := by exact_mod_cast Nat.lt_log2_self
  exact_mod_cast this

namespace Format

/-- The quotient lies between two neighbouring powers of two. -/
theorem log2Quotient_bounds {num den : ℕ} (hn : num ≠ 0) (hd : den ≠ 0) :
    (2 : ℚ) ^ log2Quotient num den ≤ num / den ∧
      (num : ℚ) / den < 2 ^ (log2Quotient num den + 1) := by
  have hden : (0 : ℚ) < den := Nat.cast_pos.2 (Nat.pos_of_ne_zero hd)
  have nlow := two_pow_log2_le hn
  have dlow := two_pow_log2_le hd
  have nhigh := lt_two_pow_log2 num
  have dhigh := lt_two_pow_log2 den
  have power (k : ℤ) : (0 : ℚ) < 2 ^ k := zpow_pos two_pos k
  obtain ⟨k, hk⟩ : ∃ k, k = (num.log2 : ℤ) - den.log2 := ⟨_, rfl⟩
  have above : (num : ℚ) / den < 2 ^ (k + 1) := by
    rw [div_lt_iff₀ hden]
    calc (num : ℚ) < 2 ^ (num.log2 + 1 : ℤ) := nhigh
      _ = 2 ^ (k + 1) * 2 ^ (den.log2 : ℤ) := by
        rw [← zpow_add₀ two_ne_zero, hk]
        congr 1
        omega
      _ ≤ 2 ^ (k + 1) * den := mul_le_mul_of_nonneg_left dlow (power _).le
  have below : (2 : ℚ) ^ (k - 1) ≤ num / den := by
    rw [le_div_iff₀ hden]
    calc (2 : ℚ) ^ (k - 1) * den ≤ 2 ^ (k - 1) * 2 ^ (den.log2 + 1 : ℤ) :=
          mul_le_mul_of_nonneg_left dhigh.le (power _).le
      _ = 2 ^ (num.log2 : ℤ) := by
        rw [← zpow_add₀ two_ne_zero, hk]
        congr 1
        omega
      _ ≤ num := nlow
  have test : den * 2 ^ k.toNat ≤ num * 2 ^ (-k).toNat ↔ (2 : ℚ) ^ k ≤ num / den := by
    rw [← one_le_div₀ (power k), ← cast_scaled, one_le_div₀ (by positivity), Nat.cast_le]
  rw [log2Quotient, ← hk]
  split_ifs with h
  · exact ⟨test.1 h, above⟩
  · rw [Int.sub_add_cancel]
    exact ⟨below, not_le.1 fun le => h (test.2 le)⟩

/-! ## Words -/

/-- The exponent of the last place of the number nearest to a quotient. -/
def lastPlace (num den : ℕ) : ℤ := max (log2Quotient num den - 52) (-1074)

/-- The quotient in units of the last place, rounded. -/
def units (num den : ℕ) : ℕ :=
  roundQuotient (num * 2 ^ (-lastPlace num den).toNat) (den * 2 ^ (lastPlace num den).toNat)

theorem magnitude_binary64 {num den : ℕ} (hn : num ≠ 0) : binary64.magnitude num den =
    min ((lastPlace num den + 1074).toNat * 2 ^ 52 + units num den) (2047 * 2 ^ 52) := by
  rw [magnitude, if_neg hn]
  rfl

theorem word_binary64 (negative : Bool) (magnitude : ℕ) :
    binary64.word negative magnitude = signWeight negative + magnitude := by
  cases negative
  · exact (Nat.zero_add _).symm
  · rfl

/-- The number of a word that is made of a place and of units of this place. -/
theorem datum_word (negative : Bool) {t n : ℕ} (ht : t ≤ 2044) (hn : n ≤ 2 ^ 53)
    (normal : t = 0 ∨ 2 ^ 52 ≤ n) :
    ∃ (m : ℕ) (e : ℤ), binary64.datum (binary64.word negative (t * 2 ^ 52 + n)) =
      .finite negative m e ∧ (m : ℚ) * 2 ^ e = n * 2 ^ (t - 1074 : ℤ) := by
  have magnitude : (signWeight negative + (t * 2 ^ 52 + n)) % 2 ^ 63 = t * 2 ^ 52 + n := by
    unfold signWeight
    split_ifs <;> omega
  have sign : decide (2 ^ 63 ≤ signWeight negative + (t * 2 ^ 52 + n)) = negative := by
    cases negative
    · have weight : signWeight false = 0 := rfl
      exact decide_eq_false (by omega)
    · exact decide_eq_true (Nat.le_add_right _ _)
  rw [datum_binary64, word_binary64, magnitude, sign]
  obtain subnormal | ⟨least, most⟩ | rfl : n < 2 ^ 52 ∨ (2 ^ 52 ≤ n ∧ n < 2 ^ 53) ∨ n = 2 ^ 53 := by
    omega
  · obtain rfl := normal.resolve_right (by omega)
    rw [Nat.zero_mul, Nat.zero_add, Nat.div_eq_of_lt subnormal, Nat.mod_eq_of_lt subnormal,
      if_neg (by decide), if_pos rfl]
    exact ⟨n, -1074, rfl, rfl⟩
  · have biased : (t * 2 ^ 52 + n) / 2 ^ 52 = t + 1 := by omega
    have stored : 2 ^ 52 + (t * 2 ^ 52 + n) % 2 ^ 52 = n := by omega
    rw [biased, stored, if_neg (by omega), if_neg (by omega)]
    refine ⟨n, _, rfl, ?_⟩
    congr 2
    omega
  · have biased : (t * 2 ^ 52 + 2 ^ 53) / 2 ^ 52 = t + 2 := by omega
    have stored : 2 ^ 52 + (t * 2 ^ 52 + 2 ^ 53) % 2 ^ 52 = 2 ^ 52 := by omega
    rw [biased, stored, if_neg (by omega), if_neg (by omega)]
    refine ⟨2 ^ 52, _, rfl, ?_⟩
    have exponent : -1074 + ((t + 2 : ℕ) : ℤ) - 1 = 1 + (t - 1074 : ℤ) := by omega
    rw [exponent, zpow_add₀ two_ne_zero]
    norm_num
    ring

section

variable {num den : ℕ}

theorem abs_units_sub_le (num : ℕ) (hd : den ≠ 0) :
    |(units num den : ℚ) - num / den / 2 ^ lastPlace num den| ≤ 1 / 2 := by
  rw [← cast_scaled, units]
  exact abs_roundQuotient_sub_le _ (Nat.mul_pos (Nat.pos_of_ne_zero hd) (Nat.two_pow_pos _))

/-- A multiple of the last place is not changed. -/
theorem units_eq (hd : den ≠ 0) {k : ℕ} (hk : (num : ℚ) / den = k * 2 ^ lastPlace num den) :
    units num den = k := by
  have power : (2 : ℚ) ^ lastPlace num den ≠ 0 := zpow_ne_zero _ two_ne_zero
  refine roundQuotient_eq (Nat.mul_pos (Nat.pos_of_ne_zero hd) (Nat.two_pow_pos _)) ?_
  rw [cast_scaled, hk, mul_div_cancel_right₀ _ power]

theorem units_le (hn : num ≠ 0) (hd : den ≠ 0) : units num den ≤ 2 ^ 53 := by
  have near := (abs_le.1 (abs_units_sub_le num hd)).2
  have scaled : (num : ℚ) / den / 2 ^ lastPlace num den < 2 ^ 53 := by
    rw [div_lt_iff₀ (zpow_pos two_pos _)]
    refine (log2Quotient_bounds hn hd).2.trans_le ?_
    rw [← zpow_natCast, ← zpow_add₀ two_ne_zero]
    refine zpow_le_zpow_right₀ one_le_two ?_
    unfold lastPlace
    omega
  have most : (units num den : ℚ) < (2 ^ 53 + 1 : ℕ) := by
    push_cast
    linarith
  exact Nat.lt_succ_iff.1 (Nat.cast_lt.1 most)

/-- Numbers that are not too small have as many units as the mantissa holds. -/
theorem le_units (hn : num ≠ 0) (hd : den ≠ 0) (h : lastPlace num den ≠ -1074) :
    2 ^ 52 ≤ units num den := by
  have near := (abs_le.1 (abs_units_sub_le num hd)).1
  have scaled : (2 : ℚ) ^ 52 ≤ num / den / 2 ^ lastPlace num den := by
    rw [le_div_iff₀ (zpow_pos two_pos _)]
    refine le_trans ?_ (log2Quotient_bounds hn hd).1
    rw [← zpow_natCast, ← zpow_add₀ two_ne_zero]
    refine zpow_le_zpow_right₀ one_le_two ?_
    unfold lastPlace at *
    omega
  have least : ((2 ^ 52 : ℕ) : ℚ) < (units num den + 1 : ℕ) := by
    push_cast
    linarith
  exact Nat.lt_succ_iff.1 (Nat.cast_lt.1 least)

theorem log2Quotient_lt (hn : num ≠ 0) (hd : den ≠ 0) {k : ℤ} (h : (num : ℚ) / den < 2 ^ k) :
    log2Quotient num den < k :=
  (zpow_lt_zpow_iff_right₀ one_lt_two).1 ((log2Quotient_bounds hn hd).1.trans_lt h)

theorem le_log2Quotient (hn : num ≠ 0) (hd : den ≠ 0) {k : ℤ} (h : (2 : ℚ) ^ k ≤ num / den) :
    k ≤ log2Quotient num den :=
  Int.lt_add_one_iff.1
    ((zpow_lt_zpow_iff_right₀ one_lt_two).1 (h.trans_lt (log2Quotient_bounds hn hd).2))

end

end Format

end Binary

namespace Double

open Binary

/-- The double is finite with the sign and the magnitude. -/
def Holds (x : Double) (negative : Bool) (a : ℚ) : Prop :=
  ∃ (m : ℕ) (e : ℤ), x.datum = .finite negative m e ∧ (m : ℚ) * 2 ^ e = a

theorem Holds.nonneg {x : Double} {negative : Bool} {a : ℚ} (h : x.Holds negative a) : 0 ≤ a := by
  obtain ⟨m, e, -, rfl⟩ := h
  positivity

theorem Holds.value? {x : Double} {negative : Bool} {a : ℚ} (h : x.Holds negative a) :
    x.value? = some (if negative then -a else a) := by
  obtain ⟨m, e, datum, rfl⟩ := h
  rw [Double.value?, datum]
  rfl

theorem datum_ofWord {word : ℕ} (h : word < 2 ^ 64) :
    (ofWord word).datum = Format.binary64.datum word := by
  have bits : (UInt64.ofNat word).toNat = word := by
    rw [UInt64.toNat_ofNat']
    exact Nat.mod_eq_of_lt h
  rw [datum, ofWord, bits]

/-- A quotient within the range of doubles becomes a multiple of its last place. -/
theorem holds_ofQuotient_units (negative : Bool) {num den : ℕ} (hn : num ≠ 0) (hd : den ≠ 0)
    (h : (num : ℚ) / den < 2 ^ (1023 : ℤ)) : (ofQuotient negative num den).Holds negative
      (Format.units num den * 2 ^ Format.lastPlace num den) := by
  have small := Format.log2Quotient_lt hn hd h
  have most := Format.units_le hn hd
  obtain ⟨t, ht⟩ : ∃ t : ℕ, Format.lastPlace num den = t - 1074 :=
    ⟨(Format.lastPlace num den + 1074).toNat, by unfold Format.lastPlace; omega⟩
  have least : t = 0 ∨ 2 ^ 52 ≤ Format.units num den := by
    refine or_iff_not_imp_left.2 fun hne => Format.le_units hn hd ?_
    omega
  have bound : t ≤ 2044 := by
    unfold Format.lastPlace at ht
    omega
  have magnitude : Format.binary64.magnitude num den = t * 2 ^ 52 + Format.units num den := by
    rw [Format.magnitude_binary64 hn, ht, Int.sub_add_cancel, Int.toNat_natCast]
    omega
  have word : Format.binary64.word negative (t * 2 ^ 52 + Format.units num den) < 2 ^ 64 := by
    rw [Format.word_binary64, Format.signWeight]
    split_ifs <;> omega
  obtain ⟨m, e, datum, value⟩ := Format.datum_word negative bound most least
  refine ⟨m, e, ?_, ?_⟩
  · rw [ofQuotient, magnitude, datum_ofWord word, datum]
  · rw [value, ht]

/-- A number is zero, or neither too small for a full mantissa nor too large for a double. -/
def InRange (q : ℚ) : Prop := q = 0 ∨ 2 ^ (-1022 : ℤ) ≤ q ∧ q < 2 ^ (1023 : ℤ)

/-- The magnitude `a` of a double is that of `q` rounded. -/
structure Rounded (q a : ℚ) : Prop where
  near : |a - q| ≤ q / 2 ^ 53
  exact : ∀ (m : ℕ) (e : ℤ), m < 2 ^ 53 → q = m * 2 ^ e → a = q
  whole : ∀ n : ℕ, q = n → ∃ k : ℕ, a = k

theorem Rounded.zero : Rounded 0 0 :=
  ⟨by simp, fun _ _ _ _ => rfl, fun _ _ => ⟨0, Nat.cast_zero.symm⟩⟩

/-- What is read as a quotient is the quotient rounded. -/
theorem rounded_units {num den : ℕ} (hn : num ≠ 0) (hd : den ≠ 0)
    (h : (2 : ℚ) ^ (-1022 : ℤ) ≤ num / den) :
    Rounded (num / den) (Format.units num den * 2 ^ Format.lastPlace num den) := by
  have large := Format.le_log2Quotient hn hd h
  have place : Format.lastPlace num den = Format.log2Quotient num den - 52 := by
    unfold Format.lastPlace
    omega
  have bounds := Format.log2Quotient_bounds hn hd
  have power : (0 : ℚ) < 2 ^ Format.lastPlace num den := zpow_pos two_pos _
  have exact {m : ℕ} {e : ℤ} (hm : m < 2 ^ 53) (hq : (num : ℚ) / den = m * 2 ^ e) :
      Format.units num den * 2 ^ Format.lastPlace num den = (num : ℚ) / den := by
    have below : (num : ℚ) / den < 2 ^ (53 + e) := by
      rw [hq, zpow_add₀ two_ne_zero]
      exact mul_lt_mul_of_pos_right (by exact_mod_cast hm) (zpow_pos two_pos e)
    have finer : Format.lastPlace num den ≤ e := by
      have := Format.log2Quotient_lt hn hd below
      omega
    obtain ⟨j, hj⟩ := Int.eq_ofNat_of_zero_le (Int.sub_nonneg.2 finer)
    have multiple : (num : ℚ) / den = (m * 2 ^ j : ℕ) * 2 ^ Format.lastPlace num den := by
      have exponent : e = j + Format.lastPlace num den := by omega
      rw [hq, exponent, zpow_add₀ two_ne_zero, zpow_natCast, Nat.cast_mul, Nat.cast_pow,
        Nat.cast_ofNat, mul_assoc]
    rw [Format.units_eq hd multiple, ← multiple]
  refine ⟨?_, fun m e hm hq => exact hm hq, fun n hq => ?_⟩
  · have near := Format.abs_units_sub_le num hd
    have least : (2 : ℚ) ^ Format.lastPlace num den * 2 ^ 52 ≤ num / den := by
      rw [← zpow_natCast, ← zpow_add₀ two_ne_zero, place, Nat.cast_ofNat, Int.sub_add_cancel]
      exact bounds.1
    have scaled : |(Format.units num den : ℚ) * 2 ^ Format.lastPlace num den - num / den| =
        |(Format.units num den : ℚ) - num / den / 2 ^ Format.lastPlace num den| *
          2 ^ Format.lastPlace num den := by
      rw [← abs_of_pos power, ← abs_mul, abs_of_pos power, sub_mul, div_mul_cancel₀ _ power.ne']
    calc _ = _ := scaled
      _ ≤ 1 / 2 * 2 ^ Format.lastPlace num den := mul_le_mul_of_nonneg_right near power.le
      _ ≤ num / den / 2 ^ 53 := by linarith
  · by_cases whole : 0 ≤ Format.lastPlace num den
    · obtain ⟨j, hj⟩ := Int.eq_ofNat_of_zero_le whole
      exact ⟨Format.units num den * 2 ^ j, by rw [hj]; push_cast; rw [zpow_natCast]⟩
    · have small : (n : ℚ) < 2 ^ 53 := by
        rw [← hq, ← zpow_natCast]
        refine bounds.2.trans_le (zpow_le_zpow_right₀ one_le_two ?_)
        omega
      have unchanged := exact (e := 0) (by exact_mod_cast small) (by rw [hq, zpow_zero, mul_one])
      exact ⟨n, unchanged.trans hq⟩

theorem holds_zero (negative : Bool) : (zero negative).Holds negative 0 := by
  refine ⟨0, -1074, ?_, by simp⟩
  cases negative <;> decide

/-- The nearest double to a quotient in the range of doubles. -/
theorem exists_holds_ofQuotient (negative : Bool) {num den : ℕ} (hd : den ≠ 0)
    (h : InRange (num / den)) :
    ∃ a, (ofQuotient negative num den).Holds negative a ∧ Rounded (num / den) a := by
  by_cases hn : num = 0
  · subst hn
    refine ⟨0, ?_, by simpa using Rounded.zero⟩
    have same : ofQuotient negative 0 den = zero negative := by
      rw [zero, ofQuotient, ofQuotient, Format.magnitude, Format.magnitude, if_pos rfl, if_pos rfl]
    exact same ▸ holds_zero negative
  · have positive : (num : ℚ) / den ≠ 0 :=
      div_ne_zero (Nat.cast_ne_zero.2 hn) (Nat.cast_ne_zero.2 hd)
    obtain ⟨least, most⟩ := h.resolve_left positive
    exact ⟨_, holds_ofQuotient_units negative hn hd most, rounded_units hn hd least⟩

end Double

end FilterSql
