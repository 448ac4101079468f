import FilterSql.Double.Text
import FilterSql.Proofs.Double.Errors
import FilterSql.Proofs.Value.Numbers
import Mathlib.Data.List.TakeWhile

/-!
# Integers as doubles

The double of an integer is an integer within `2⁻⁵³` of it, and the same one exactly if it has at
most 53 bits before its last zeros (`exists_natural`).  A text of digits is read as the double of
the integer that it writes (`ofText?_of_numeral`).
-/

namespace FilterSql

namespace Double

/-- The integer is a double. -/
def Representable (n : ℕ) : Prop := ∃ m e : ℕ, m < 2 ^ 53 ∧ n = m * 2 ^ e

theorem representable_of_le {n : ℕ} (h : n ≤ 2 ^ 53) : Representable n := by
  obtain hlt | rfl := h.lt_or_eq
  · exact ⟨n, 0, hlt, by rw [pow_zero, mul_one]⟩
  · exact ⟨1, 53, by decide, by decide⟩

/-- An integer that a double holds is representable. -/
theorem Holds.representable {x : Double} {s : Bool} {n : ℕ} (h : x.Holds s n) :
    Representable n := by
  obtain ⟨m, e, datum, value⟩ := h
  have small := (Binary.Format.datum_finite x.bits.toNat_lt datum).1
  obtain he | he := le_total 0 e
  · obtain ⟨j, rfl⟩ := Int.eq_ofNat_of_zero_le he
    refine ⟨m, j, small, ?_⟩
    rw [zpow_natCast] at value
    exact_mod_cast value.symm
  · have fraction : (2 : ℚ) ^ e ≤ 1 := zpow_le_one_of_nonpos₀ one_le_two he
    have le : (n : ℚ) ≤ m := by
      rw [← value]
      exact mul_le_of_le_one_right m.cast_nonneg fraction
    exact representable_of_le ((Nat.cast_le.1 le).trans small.le)

/-- The double of an integer. -/
theorem exists_natural {n : ℕ} (h : n < 2 ^ 96) : ∃ k : ℕ, (ofInt n).value? = some (k : ℚ) ∧
    Within (1 / 2 ^ 53) k n ∧ (k = n ↔ Representable n) := by
  obtain ⟨a, holds, rounded⟩ := exists_holds_natural false h
  obtain ⟨k, rfl⟩ := rounded.whole n rfl
  refine ⟨k, holds.value?, rounded.within, fun same => ?_, ?_⟩
  · exact same ▸ holds.representable
  · rintro ⟨m, e, hm, hn⟩
    have scaled : (n : ℚ) = m * 2 ^ (e : ℤ) := by
      rw [hn, zpow_natCast]
      push_cast
      rfl
    exact_mod_cast rounded.exact m e hm scaled

theorem truncate?_of_value? {x : Double} {k : ℕ} (h : x.value? = some (k : ℚ)) :
    x.truncate? = some (k : ℤ) :=
  (value?_eq_intCast_iff.1 (by rw [h, Int.cast_natCast])).2

/-! ## Numerals -/

section

variable {ds : List Char}

theorem toLower_of_isDigit {c : Char} (h : Text.isDigit c = true) : c.toLower = c := by
  have most : c.toNat ≤ 57 := by
    simp only [Text.isDigit, Bool.and_eq_true, decide_eq_true_eq] at h
    exact h.2
  refine dif_neg fun upper => ?_
  have least : 65 ≤ c.toNat := upper.1
  omega

/-- The names of infinity and NaN have no digits. -/
theorem ofMagnitude?_of_digits (h : ∀ c ∈ ds, Text.isDigit c = true) :
    ofMagnitude? false ds = ofUnsigned? false ds := by
  have lower : ds.map Char.toLower = ds :=
    (List.map_congr_left fun c hc => toLower_of_isDigit (h c hc)).trans (List.map_id ds)
  have unnamed (c : Char) (cs : List Char) (letter : Text.isDigit c = false) :
      String.ofList ds ≠ String.ofList (c :: cs) := by
    intro same
    rw [h c (String.ofList_injective same ▸ List.mem_cons_self)] at letter
    cases letter
  have inf : String.ofList ds ≠ "inf" := unnamed 'i' ['n', 'f'] rfl
  have infinity : String.ofList ds ≠ "infinity" :=
    unnamed 'i' ['n', 'f', 'i', 'n', 'i', 't', 'y'] rfl
  have nan : String.ofList ds ≠ "nan" := unnamed 'n' ['a', 'n'] rfl
  simp [ofMagnitude?, lower, inf, infinity, nan]

/-- Digits are read as the integer that they write. -/
theorem ofUnsigned?_of_digits (hne : ds ≠ []) (h : ∀ c ∈ ds, Text.isDigit c = true)
    (positive : Text.decimalValue ds ≠ 0) :
    ofUnsigned? false ds = some (ofInt (Text.decimalValue ds)) := by
  have taken : ds.takeWhile Text.isDigit = ds := List.takeWhile_eq_self_iff.2 h
  have dropped : ds.dropWhile Text.isDigit = [] := List.dropWhile_eq_nil_iff.2 h
  have exact {n : ℕ} (hn : n ≠ 0) : ofDecimal false n 0 = ofInt n := by
    rw [ofDecimal, if_neg hn, if_neg (by decide), if_neg (by omega), ofInt,
      decide_eq_false (by omega)]
    simp
  simp [ofUnsigned?, taken, dropped, hne, exponent?, Text.digitsValue_eq, exact positive]

/-- A numeral is read as the double of its integer. -/
theorem ofText?_of_numeral {s : String} {n : ℤ} (h : Text.Numeral s.toList n) (hn : 0 < n) :
    ofText? s = some (ofInt n) := by
  generalize hcs : s.toList = cs at h
  rw [ofText?, hcs]
  cases h with
  | plain hne digits =>
    rw [← ofUnsigned?_of_digits hne digits (by omega), ← ofMagnitude?_of_digits digits]
    split
    · exact absurd (digits _ List.mem_cons_self) (by decide)
    · exact absurd (digits _ List.mem_cons_self) (by decide)
    · rfl
  | plus hne digits =>
    rw [← ofUnsigned?_of_digits hne digits (by omega)]
    exact ofMagnitude?_of_digits digits
  | minus => omega

end

end Double

end FilterSql
