import FilterSql.Postgres.Wire
import Mathlib.Tactic.Common

/-!
# Words on the wire

A number is read back from its bytes if it fits in them: a number without sign from `wordBytes`
(`unsigned?_wordBytes`), one with a sign from `signedBytes` (`signed?_signedBytes`).
-/

namespace FilterSql.Postgres

theorem length_wordBytes (width n : Nat) : (wordBytes width n).length = width := by
  induction width with
  | zero => rfl
  | succ width ih => rw [wordBytes, List.length_cons, ih]

theorem wordOf_cons (b : UInt8) (bs : Bytes) :
    wordOf (b :: bs) = b.toNat * 256 ^ bs.length + wordOf bs := by
  have weight (n : Nat) : bs.foldl (fun n b => 256 * n + b.toNat) n =
      n * 256 ^ bs.length + wordOf bs := by
    unfold wordOf
    induction bs generalizing n with
    | nil => simp
    | cons c bs ih =>
      rw [List.foldl_cons, List.foldl_cons, ih, ih (256 * 0 + c.toNat), List.length_cons,
        Nat.pow_succ]
      grind
  rw [wordOf, List.foldl_cons, weight]
  simp

/-- Bytes keep what fits in them. -/
theorem wordOf_wordBytes (width n : Nat) : wordOf (wordBytes width n) = n % 256 ^ width := by
  induction width with
  | zero => rw [Nat.pow_zero, Nat.mod_one]; rfl
  | succ width ih =>
    have digit : (UInt8.ofNat (n / 256 ^ width)).toNat = n / 256 ^ width % 256 := UInt8.toNat_ofNat
    rw [wordBytes, wordOf_cons, digit, ih, length_wordBytes, Nat.mod_pow_succ, Nat.mul_comm,
      Nat.add_comm]

theorem unsigned?_wordBytes {width n : Nat} (h : n < 256 ^ width) :
    unsigned? width (wordBytes width n) = some n := by
  rw [unsigned?, if_pos (length_wordBytes width n), wordOf_wordBytes, Nat.mod_eq_of_lt h]

/-- A signed number is read back from as many bytes as it needs. -/
theorem signed?_signedBytes {width : Nat} {n : Int} (hleast : -256 ^ width ≤ 2 * n)
    (hmost : 2 * n < 256 ^ width) : signed? width (signedBytes width n) = some n := by
  rw [signed?, signedBytes]
  have cast : (256 : Int) ^ width = ↑(256 ^ width : Nat) := by rw [Int.natCast_pow]; rfl
  have positive : 0 < 256 ^ width := Nat.pow_pos (by decide)
  rw [cast] at hleast hmost ⊢
  generalize hsize : 256 ^ width = size at *
  have low : 0 ≤ n % size := Int.emod_nonneg _ (by omega)
  have high : n % size < size := Int.emod_lt_of_pos _ (by omega)
  rw [unsigned?_wordBytes (by omega)]
  refine congrArg some ?_
  dsimp only
  -- Negative numbers are in the upper half of the words.
  by_cases hn : n < 0
  · have shifted : n % size = n + size := by
      rw [← Int.add_emod_right, Int.emod_eq_of_lt (by omega) (by omega)]
    rw [shifted, if_neg (by omega), Int.toNat_of_nonneg (by omega)]
    omega
  · have same : n % size = n := Int.emod_eq_of_lt (by omega) (by omega)
    rw [same, if_pos (by omega), Int.toNat_of_nonneg (by omega)]

end FilterSql.Postgres
