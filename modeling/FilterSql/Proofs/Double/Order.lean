import FilterSql.Proofs.Double.Integers
import Mathlib.Order.WithBot

/-!
# The order of doubles

A double that is a number or an infinity has a place in a linear order (`Double.place?`), and doubles
compare as their places (`Double.compare?_eq`).  Rounding an integer to a double keeps the order of
integers, but not strictly (`Double.roundedInt_mono`).
-/

namespace FilterSql

namespace Binary

/-- Rounding keeps the order: between results that differ lie the numbers that go to either. -/
theorem roundQuotient_mono {m n den : ℕ} (hd : 0 < den) (h : m ≤ n) :
    roundQuotient m den ≤ roundQuotient n den := by
  by_contra less
  have step : (roundQuotient n den : ℚ) + 1 ≤ roundQuotient m den := by
    exact_mod_cast Nat.lt_of_not_le less
  have low := (abs_le.1 (abs_roundQuotient_sub_le m hd)).2
  have high := (abs_le.1 (abs_roundQuotient_sub_le n hd)).1
  have hden : (0 : ℚ) < den := Nat.cast_pos.2 hd
  have quotients : (n : ℚ) / den ≤ m / den := by linarith
  have same : m = n := le_antisymm h (Nat.cast_le.1 ((div_le_div_iff_of_pos_right hden).1 quotients))
  exact less (same ▸ le_refl _)

namespace Format

variable {m n : ℕ}

theorem log2Quotient_mono (hm : m ≠ 0) (h : m ≤ n) : log2Quotient m 1 ≤ log2Quotient n 1 := by
  refine le_log2Quotient (by omega) one_ne_zero ?_
  refine (log2Quotient_bounds hm one_ne_zero).1.trans ?_
  exact div_le_div_of_nonneg_right (Nat.cast_le.2 h) (Nat.cast_nonneg 1)

/-- Multiples of a last place are no more than those of a later one. -/
theorem units_mul_mono (hm : m ≠ 0) (h : m ≤ n) :
    (units m 1 : ℚ) * 2 ^ lastPlace m 1 ≤ units n 1 * 2 ^ lastPlace n 1 := by
  have hn : n ≠ 0 := by omega
  have logs := log2Quotient_mono hm h
  have power (k : ℤ) : (0 : ℚ) < 2 ^ k := zpow_pos two_pos k
  obtain same | later : lastPlace m 1 = lastPlace n 1 ∨ lastPlace m 1 + 1 ≤ lastPlace n 1 := by
    unfold lastPlace
    omega
  · have fewer : units m 1 ≤ units n 1 := by
      unfold units
      rw [same]
      exact roundQuotient_mono (by positivity) (Nat.mul_le_mul_right _ h)
    rw [same]
    exact mul_le_mul_of_nonneg_right (Nat.cast_le.2 fewer) (power _).le
  · have full : 2 ^ 52 ≤ units n 1 := le_units hn one_ne_zero (by unfold lastPlace at *; omega)
    calc (units m 1 : ℚ) * 2 ^ lastPlace m 1 ≤ 2 ^ 53 * 2 ^ lastPlace m 1 :=
          mul_le_mul_of_nonneg_right (by exact_mod_cast units_le hm one_ne_zero) (power _).le
      _ = 2 ^ 52 * 2 ^ (lastPlace m 1 + 1) := by
        rw [zpow_add_one₀ two_ne_zero]
        ring
      _ ≤ 2 ^ 52 * 2 ^ lastPlace n 1 :=
        mul_le_mul_of_nonneg_left (zpow_le_zpow_right₀ one_le_two later) (by positivity)
      _ ≤ units n 1 * 2 ^ lastPlace n 1 :=
        mul_le_mul_of_nonneg_right (by exact_mod_cast full) (power _).le

end Format

end Binary

namespace Double

open Binary

/-! ## Places -/

/-- The numbers, with an infinity at both ends. -/
abbrev Place := WithBot (WithTop ℚ)

/-- Where a double stands among the numbers and the infinities; a NaN stands nowhere. -/
def place? (x : Double) : Option Place :=
  match x.datum with
  | .nan => none
  | .infinite negative => some (if negative then ⊥ else ⊤)
  | .finite .. => x.value?.map fun q => ((q : WithTop ℚ) : Place)

theorem place?_of_value? {x : Double} {q : ℚ} (h : x.value? = some q) :
    x.place? = some ((q : WithTop ℚ) : Place) := by
  rw [place?, h]
  rw [value?] at h
  cases hx : x.datum with
  | finite s m e => rfl
  | nan | infinite => simp [hx, Datum.value?] at h

theorem compare_places (p q : ℚ) :
    compare ((p : WithTop ℚ) : Place) ((q : WithTop ℚ) : Place) = compare p q := by
  have mono : StrictMono fun q : ℚ => ((q : WithTop ℚ) : Place) := fun _ _ h =>
    WithBot.coe_lt_coe.2 (WithTop.coe_lt_coe.2 h)
  rw [← cmp_eq_compare, ← cmp_eq_compare]
  exact mono.cmp_map_eq p q

theorem place_lt_top (q : ℚ) : ((q : WithTop ℚ) : Place) < ⊤ :=
  WithBot.coe_lt_coe.2 (WithTop.coe_lt_top q)

/-- Doubles compare as their places. -/
theorem compare?_eq (x y : Double) :
    x.compare? y = x.place?.bind fun p => y.place?.map fun q => compare p q := by
  have finite {z : Double} {s : Bool} {m : ℕ} {e : ℤ} (hz : z.datum = .finite s m e) :
      ∃ q : ℚ, z.value? = some q := by
    rw [value?, hz]
    exact ⟨_, rfl⟩
  have ends : compare (⊥ : Place) ⊤ = .lt ∧ compare (⊤ : Place) ⊥ = .gt :=
    ⟨compare_lt_iff_lt.2 bot_lt_top, compare_gt_iff_gt.2 bot_lt_top⟩
  cases hx : x.datum with
  | nan => simp [compare?, place?, hx]
  | infinite s =>
    cases hy : y.datum with
    | nan => simp [compare?, place?, hx, hy]
    | infinite t =>
      cases s <;> cases t <;> simp [compare?, place?, hx, hy, ends]
    | finite t n f =>
      obtain ⟨q, hq⟩ := finite hy
      have low : compare (⊥ : Place) ((q : WithTop ℚ) : Place) = .lt :=
        compare_lt_iff_lt.2 (WithBot.bot_lt_coe _)
      have high : compare (⊤ : Place) ((q : WithTop ℚ) : Place) = .gt :=
        compare_gt_iff_gt.2 (place_lt_top q)
      rw [place?_of_value? hq]
      cases s <;> simp [compare?, place?, hx, hy, low, high]
  | finite s m e =>
    obtain ⟨p, hp⟩ := finite hx
    cases hy : y.datum with
    | nan => simp [compare?, place?, hx, hy]
    | infinite t =>
      have low : compare ((p : WithTop ℚ) : Place) ⊥ = .gt :=
        compare_gt_iff_gt.2 (WithBot.bot_lt_coe _)
      have high : compare ((p : WithTop ℚ) : Place) ⊤ = .lt := compare_lt_iff_lt.2 (place_lt_top p)
      rw [place?_of_value? hp]
      cases t <;> simp [compare?, place?, hx, hy, low, high]
    | finite t n f =>
      obtain ⟨q, hq⟩ := finite hy
      rw [place?_of_value? hp, place?_of_value? hq, compare?_of_value? hp hq, Option.bind_some,
        Option.map_some, compare_places]

theorem compare?_swap (x y : Double) : y.compare? x = (x.compare? y).map Ordering.swap := by
  rw [compare?_eq, compare?_eq]
  cases x.place? with
  | none => cases y.place? <;> rfl
  | some p =>
    cases y.place? with
    | none => rfl
    | some q => exact congrArg some Std.OrientedCmp.eq_swap

/-- Doubles compare as equal if they have the same place. -/
theorem compare?_eq_eq_iff {x y : Double} :
    x.compare? y = some .eq ↔ ∃ p, x.place? = some p ∧ y.place? = some p := by
  rw [compare?_eq]
  cases x.place? with
  | none => simp
  | some p =>
    cases y.place? with
    | none => simp
    | some q =>
      simp only [Option.bind_some, Option.map_some, Option.some.injEq, compare_eq_iff_eq]
      exact ⟨fun h => ⟨p, rfl, h.symm⟩, fun ⟨_, hp, hq⟩ => hp.trans hq.symm⟩

/-- The number of the double of a natural number. -/
def rounded (n : ℕ) : ℚ := if n = 0 then 0 else Format.units n 1 * 2 ^ Format.lastPlace n 1

theorem holds_rounded (negative : Bool) {n : ℕ} (h : n < 2 ^ 96) :
    (ofQuotient negative n 1).Holds negative (rounded n) := by
  unfold rounded
  split_ifs with hn
  · rw [hn]
    exact holds_zero negative
  · refine holds_ofQuotient_units negative hn one_ne_zero ?_
    have small : (n : ℚ) < 2 ^ 96 := by exact_mod_cast h
    rw [Nat.cast_one, div_one]
    refine small.trans ?_
    rw [← zpow_natCast]
    exact zpow_lt_zpow_right₀ one_lt_two (by decide)

theorem rounded_nonneg (n : ℕ) : 0 ≤ rounded n := by
  unfold rounded
  split_ifs <;> positivity

theorem rounded_mono {m n : ℕ} (h : m ≤ n) : rounded m ≤ rounded n := by
  by_cases hm : m = 0
  · have zero : rounded 0 = 0 := if_pos rfl
    rw [hm, zero]
    exact rounded_nonneg n
  · rw [rounded, rounded, if_neg hm, if_neg (by omega)]
    exact Format.units_mul_mono hm h

theorem rounded_eq {n : ℕ} (h : n ≤ 2 ^ 53) : rounded n = n := by
  obtain ⟨k, value, -, exact⟩ := exists_natural (n := n) (by omega)
  have holds := (holds_rounded false (n := n) (by omega)).value?
  have same : (k : ℚ) = rounded n := Option.some.inj (value.symm.trans holds)
  rw [← same, exact.2 (representable_of_le h)]

/-- The number of the double of an integer. -/
def roundedInt (n : ℤ) : ℚ := if n < 0 then -rounded n.natAbs else rounded n.natAbs

theorem value?_ofInt {n : ℤ} (h : n.natAbs < 2 ^ 96) : (ofInt n).value? = some (roundedInt n) := by
  rw [ofInt, (holds_rounded _ h).value?, roundedInt]
  simp

/-- Rounding to doubles keeps the order of integers. -/
theorem roundedInt_mono {m n : ℤ} (h : m ≤ n) : roundedInt m ≤ roundedInt n := by
  unfold roundedInt
  split_ifs with hm hn hn
  · exact neg_le_neg (rounded_mono (by omega))
  · exact (neg_nonpos.2 (rounded_nonneg _)).trans (rounded_nonneg _)
  · omega
  · exact rounded_mono (by omega)

theorem place_roundedInt_mono {m n : ℤ} (h : m ≤ n) :
    ((roundedInt m : WithTop ℚ) : Place) ≤ (roundedInt n : WithTop ℚ) :=
  WithBot.coe_le_coe.2 (WithTop.coe_le_coe.2 (roundedInt_mono h))

theorem roundedInt_eq {n : ℤ} (h : n.natAbs ≤ 2 ^ 53) : roundedInt n = n := by
  unfold roundedInt
  rw [rounded_eq h]
  split_ifs with negative
  · rw [Nat.cast_natAbs, abs_of_neg negative]
    push_cast
    exact neg_neg _
  · rw [Nat.cast_natAbs, abs_of_nonneg (not_lt.1 negative)]

end Double

end FilterSql
