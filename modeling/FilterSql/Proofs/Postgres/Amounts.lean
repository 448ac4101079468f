import FilterSql.Postgres.Executor
import FilterSql.Proofs.Decimal.Accuracy
import FilterSql.Value.Compare

/-!
# Amounts

The cells of the type `numeric` are decimals of 96 bits, and their values are doubles of 53.  Cells
of different amounts have different values as long as the amounts are short, or integers that
doubles hold, or not too close (`amounts_kept_apart`).
-/

namespace FilterSql.Postgres

theorem cellValue_numeric {bs : Bytes} {d : Decimal} (h : decimal? bs = some d) :
    cellValue .numeric (some bs) = .float d.toDouble := by
  rw [cellValue, Option.bind_eq_bind, Option.bind_some, cell?, h]
  rfl

/-- The values of two cells of different numbers differ, if both have at most 15 digits or are
integers up to `2 ^ 53`, or if the numbers differ by more than `2 ^ -47` of the larger one. -/
theorem amounts_kept_apart {bs bs' : Bytes} {d e : Decimal} (hd : decimal? bs = some d)
    (he : decimal? bs' = some e) (h : d.value ≠ e.value)
    (apart : d.Plain ∧ e.Plain ∨ max |d.value| |e.value| / 2 ^ 47 < |d.value - e.value|) :
    (cellValue .numeric (some bs)).same (cellValue .numeric (some bs')) = false := by
  obtain ⟨v, hv, nearv⟩ := d.exists_near
  obtain ⟨w, hw, nearw⟩ := e.exists_near
  have different := nearv.ne nearw h apart
  rw [cellValue_numeric hd, cellValue_numeric he, Bool.eq_false_iff]
  exact fun same => different ((Double.numEq_iff hv hw).1 same)

/-- The amounts 1234567.89 and 1234567.90. -/
theorem cents_kept_apart :
    decimal? (numericForm 1 false 2 [123, 4567, 8900]) =
        some ⟨false, 123456789, 2, by decide, by decide⟩ ∧
      decimal? (numericForm 1 false 2 [123, 4567, 9000]) =
        some ⟨false, 123456790, 2, by decide, by decide⟩ ∧
      (cellValue .numeric (some (numericForm 1 false 2 [123, 4567, 8900]))).same
        (cellValue .numeric (some (numericForm 1 false 2 [123, 4567, 9000]))) = false := by
  have hd : decimal? (numericForm 1 false 2 [123, 4567, 8900]) =
      some ⟨false, 123456789, 2, by decide, by decide⟩ := by decide +kernel
  have he : decimal? (numericForm 1 false 2 [123, 4567, 9000]) =
      some ⟨false, 123456790, 2, by decide, by decide⟩ := by decide +kernel
  refine ⟨hd, he, amounts_kept_apart hd he ?_ (.inl (by decide +kernel))⟩
  norm_num [Decimal.value, Decimal.magnitude]

/-- The amounts 9007199254740993 and 9007199254740992 have one value. -/
theorem neighbours_conflated : ∃ d e : Decimal,
    decimal? (numericForm 3 false 0 [9007, 1992, 5474, 993]) = some d ∧
      decimal? (numericForm 3 false 0 [9007, 1992, 5474, 992]) = some e ∧ d.value ≠ e.value ∧
      (cellValue .numeric (some (numericForm 3 false 0 [9007, 1992, 5474, 993]))).same
        (cellValue .numeric (some (numericForm 3 false 0 [9007, 1992, 5474, 992]))) = true := by
  have hd : decimal? (numericForm 3 false 0 [9007, 1992, 5474, 993]) =
      some ⟨false, 9007199254740993, 0, by decide, by decide⟩ := by decide +kernel
  have he : decimal? (numericForm 3 false 0 [9007, 1992, 5474, 992]) =
      some ⟨false, 9007199254740992, 0, by decide, by decide⟩ := by decide +kernel
  refine ⟨_, _, hd, he, ?_, ?_⟩
  · norm_num [Decimal.value, Decimal.magnitude]
  · rw [cellValue_numeric hd, cellValue_numeric he]
    decide +kernel

end FilterSql.Postgres
