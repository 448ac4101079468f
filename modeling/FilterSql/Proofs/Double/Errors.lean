import FilterSql.Proofs.Double.Arithmetic
import Mathlib.Tactic.NormNum

/-!
# Errors of doubles

A chain of rounded operations is bounded by two judgments on magnitudes.  `Within ε a q` says that
`a` is off from `q` by `ε * q` at most, and has one rule for each operation; `Spans k q` says that
`q` is far from the ends of the range of doubles, so that the next result is in range as well.
-/

namespace FilterSql.Double

/-- A number is off from `q` by at most the fraction `ε` of it. -/
def Within (ε a q : ℚ) : Prop := |a - q| ≤ ε * q

section

variable {δ ε a b c q : ℚ}

theorem Within.refl (hq : 0 ≤ q) (hε : 0 ≤ ε) : Within ε q q := by
  rw [Within, sub_self, abs_zero]
  positivity

theorem Within.mono (h : Within δ a q) (hq : 0 ≤ q) (hle : δ ≤ ε) : Within ε a q :=
  le_trans h (mul_le_mul_of_nonneg_right hle hq)

theorem Within.le (h : Within ε a q) : a ≤ (1 + ε) * q := by
  have := (abs_le.1 h).2
  linarith

theorem Within.ge (h : Within ε a q) : (1 - ε) * q ≤ a := by
  have := (abs_le.1 h).1
  linarith

/-- Errors add up, with a product of the two. -/
theorem Within.trans (ha : Within δ a b) (hb : Within ε b q) (hδ : 0 ≤ δ) :
    Within (δ + ε + δ * ε) a q := by
  have size : δ * b ≤ δ * ((1 + ε) * q) := mul_le_mul_of_nonneg_left hb.le hδ
  calc |a - q| = |(a - b) + (b - q)| := by rw [sub_add_sub_cancel]
    _ ≤ |a - b| + |b - q| := abs_add_le _ _
    _ ≤ δ * b + ε * q := add_le_add ha hb
    _ ≤ (δ + ε + δ * ε) * q := by linarith

theorem Within.mul_right (h : Within ε a q) (hc : 0 ≤ c) : Within ε (a * c) (q * c) := by
  rw [Within, ← sub_mul, abs_mul, abs_of_nonneg hc, ← mul_assoc]
  exact mul_le_mul_of_nonneg_right h hc

theorem Within.div_right (h : Within ε a q) (hc : 0 ≤ c) : Within ε (a / c) (q / c) := by
  rw [div_eq_mul_inv, div_eq_mul_inv]
  exact h.mul_right (inv_nonneg.2 hc)

theorem Within.add (ha : Within ε a q) (hb : Within ε b c) : Within ε (a + b) (q + c) := by
  calc |a + b - (q + c)| = |(a - q) + (b - c)| := by rw [add_sub_add_comm]
    _ ≤ |a - q| + |b - c| := abs_add_le _ _
    _ ≤ ε * (q + c) := by rw [mul_add]; exact add_le_add ha hb

/-- Division by a number that is off by a little. -/
theorem Within.div_left (h : Within ε a q) (hq : 0 < q) (hε : ε ≤ 1 / 2) (hc : 0 ≤ c) :
    Within (2 * ε) (c / a) (c / q) := by
  have low : q ≤ 2 * a := by
    have := (mul_le_mul_of_nonneg_right (sub_le_sub_left hε 1) hq.le).trans h.ge
    linarith
  have ha : 0 < a := by linarith
  have same : c / a - c / q = c * (q - a) / (a * q) := by
    field_simp
  rw [Within, same, abs_div, abs_mul, abs_of_nonneg hc, abs_of_pos (mul_pos ha hq), abs_sub_comm,
    div_le_iff₀ (mul_pos ha hq)]
  have hpos : 0 ≤ ε := nonneg_of_mul_nonneg_left ((abs_nonneg _).trans h) hq
  have error : |a - q| ≤ 2 * ε * a := by
    calc |a - q| ≤ ε * q := h
      _ ≤ ε * (2 * a) := mul_le_mul_of_nonneg_left low hpos
      _ = 2 * ε * a := by ring
  calc c * |a - q| ≤ c * (2 * ε * a) := mul_le_mul_of_nonneg_left error hc
    _ = 2 * ε * (c / q) * (a * q) := by field_simp

/-- The integer nearest to a number that is close to an integer. -/
theorem Within.integer {n k : ℕ} (h : Within ε a k) (near : |(n : ℚ) - a| ≤ 1 / 2) :
    Within (2 * ε) n k ∧ (ε * k < 1 / 2 → n = k) := by
  have close : ε * k < 1 / 2 → n = k := by
    intro hsmall
    have apart : |((n : ℤ) - k : ℤ)| < 1 := by
      have sum : |(n : ℚ) - k| < 1 := by
        calc |(n : ℚ) - k| = |(n - a) + (a - k)| := by rw [sub_add_sub_cancel]
          _ ≤ |n - a| + |a - k| := abs_add_le _ _
          _ ≤ 1 / 2 + ε * k := add_le_add near h
          _ < 1 := by linarith
      exact_mod_cast sum
    have := Int.abs_lt_one_iff.1 apart
    omega
  refine ⟨?_, close⟩
  obtain hsmall | hlarge := lt_or_ge (ε * k) (1 / 2)
  · rw [close hsmall, Within, sub_self, abs_zero]
    have := (abs_nonneg _).trans h
    linarith
  · calc |(n : ℚ) - k| = |(n - a) + (a - k)| := by rw [sub_add_sub_cancel]
      _ ≤ |n - a| + |a - k| := abs_add_le _ _
      _ ≤ 1 / 2 + ε * k := add_le_add near h
      _ ≤ 2 * ε * k := by linarith

end

/-! ## Rounding -/

section

variable {q a : ℚ}

theorem Rounded.within (h : Rounded q a) : Within (1 / 2 ^ 53) a q := by
  rw [Within, one_div_mul_eq_div]
  exact h.near

/-- Integers of up to 53 bits are doubles. -/
theorem Rounded.eq_natCast {n : ℕ} (h : Rounded n a) (hn : n ≤ 2 ^ 53) : a = n := by
  obtain hlt | rfl := hn.lt_or_eq
  · exact h.exact n 0 hlt (by rw [zpow_zero, mul_one])
  · exact h.exact 1 53 (by decide) (by norm_num)

end

/-! ## Ranges -/

/-- A number lies between the powers `2 ^ -k` and `2 ^ k`. -/
structure Spans (k : ℕ) (q : ℚ) : Prop where
  low : (1 / 2) ^ k ≤ q
  high : q ≤ 2 ^ k

section

variable {j k : ℕ} {q r a : ℚ}

theorem Spans.pos (h : Spans k q) : 0 < q := lt_of_lt_of_le (by positivity) h.low

theorem Spans.mono (h : Spans j q) (hle : j ≤ k) : Spans k q :=
  ⟨(pow_le_pow_of_le_one (by norm_num) (by norm_num) hle).trans h.low,
    h.high.trans (pow_le_pow_right₀ one_le_two hle)⟩

theorem Spans.mul (hq : Spans j q) (hr : Spans k r) : Spans (j + k) (q * r) := by
  refine ⟨?_, ?_⟩ <;> rw [pow_add]
  · exact mul_le_mul hq.low hr.low (by positivity) hq.pos.le
  · exact mul_le_mul hq.high hr.high hr.pos.le (by positivity)

theorem Spans.inv (h : Spans k q) : Spans k q⁻¹ := by
  refine ⟨?_, ?_⟩
  · rw [one_div, inv_pow]
    exact inv_anti₀ h.pos h.high
  · rw [inv_le_comm₀ h.pos (by positivity), ← inv_pow, ← one_div]
    exact h.low

theorem Spans.div (hq : Spans j q) (hr : Spans k r) : Spans (j + k) (q / r) := by
  rw [div_eq_mul_inv]
  exact hq.mul hr.inv

theorem Spans.add (hr : Spans k r) (hq : 0 ≤ q) (hk : q ≤ 2 ^ k) : Spans (k + 1) (q + r) := by
  have wider : (1 / 2) ^ (k + 1) ≤ r := (hr.mono k.le_succ).low
  refine ⟨by linarith, ?_⟩
  rw [pow_succ]
  linarith [hr.high]

theorem Spans.natCast {n : ℕ} (hn : n ≠ 0) (h : (n : ℚ) ≤ 2 ^ k) : Spans k n := by
  refine ⟨(pow_le_one₀ (by norm_num) (by norm_num)).trans ?_, h⟩
  exact_mod_cast Nat.one_le_iff_ne_zero.2 hn

theorem Spans.within {ε : ℚ} (h : Spans k q) (ha : Within ε a q) (hε : ε ≤ 1 / 2) :
    Spans (k + 1) a := by
  have low := mul_le_mul_of_nonneg_right (sub_le_sub_left hε 1) h.pos.le
  have high := mul_le_mul_of_nonneg_right (add_le_add_right hε 1) h.pos.le
  refine ⟨?_, ?_⟩ <;> rw [pow_succ]
  · linarith [ha.ge, h.low]
  · linarith [ha.le, h.high, h.pos]

theorem Spans.rounded (h : Spans k q) (ha : Rounded q a) : Spans (k + 1) a :=
  h.within ha.within (by norm_num)

theorem Spans.inRange (h : Spans k q) (hk : k ≤ 1022) : InRange q := by
  have wide := h.mono hk
  refine .inr ⟨?_, ?_⟩
  · have := wide.low
    rwa [one_div, inv_pow, ← zpow_natCast, ← zpow_neg] at this
  · refine lt_of_le_of_lt wide.high ?_
    rw [← zpow_natCast]
    exact zpow_lt_zpow_right₀ one_lt_two (by decide)

end

/-- The double of an integer is the integer rounded. -/
theorem exists_holds_natural (negative : Bool) {n : ℕ} (hn : n < 2 ^ 96) :
    ∃ a, (ofQuotient negative n 1).Holds negative a ∧ Rounded n a := by
  have quotient : (n : ℚ) = n / (1 : ℕ) := by simp
  have range : InRange n := by
    by_cases zero : n = 0
    · exact .inl (by rw [zero, Nat.cast_zero])
    · have most : (n : ℚ) ≤ 2 ^ 96 := by exact_mod_cast hn.le
      exact (Spans.natCast zero most).inRange (by decide)
  rw [quotient] at range ⊢
  exact exists_holds_ofQuotient _ one_ne_zero range

end FilterSql.Double
