import FilterSql.Postgres.Param
import FilterSql.Proofs.Postgres.Words
import FilterSql.Proofs.Value.Numbers

/-!
# Values as integer parameters

A value that is sent as an integer is read on the other side as the number that it stands for; the
exception are doubles beyond the words of 64 bits, of which the nearest word is sent
(`Param.integers_coerced`).  What is not read as an integer, or does not fit the type, is refused,
with the position of the first such value.
-/

namespace FilterSql.Postgres

/-- The bytes of an integer type. -/
def PgType.width? : PgType → Option ℕ
  | int2 => some 2
  | int4 => some 4
  | int8 => some 8
  | _ => none

/-- The integer has a signed word of so many bytes. -/
def Fits (width : ℕ) (n : ℤ) : Prop := -256 ^ width ≤ 2 * n ∧ 2 * n < 256 ^ width

instance (width : ℕ) (n : ℤ) : Decidable (Fits width n) := inferInstanceAs (Decidable (_ ∧ _))

namespace Param

/-- The parameter is taken by the type, and its bytes are read as the integer. -/
def Sends (p : Param) (t : PgType) (n : ℤ) : Prop :=
  ∃ width bytes, t.width? = some width ∧ p.encode? t = some (some bytes) ∧
    signed? width bytes = some n

theorem Sends.of_bytes {p : Param} {t : PgType} {width : ℕ} {n : ℤ} (ht : t.width? = some width)
    (hp : p.encode? t = some (some (signedBytes width n))) (hn : Fits width n) : p.Sends t n :=
  ⟨width, _, ht, hp, signed?_signedBytes hn.1 hn.2⟩

theorem Sends.unique {p : Param} {t : PgType} {m n : ℤ} (hm : p.Sends t m) (hn : p.Sends t n) :
    m = n := by
  obtain ⟨width, bytes, ht, hp, hread⟩ := hm
  obtain ⟨_, _, ht', hp', hread'⟩ := hn
  rw [ht, Option.some_inj] at ht'
  rw [hp, Option.some_inj, Option.some_inj] at hp'
  rw [← ht', ← hp', hread, Option.some_inj] at hread'
  exact hread'

/-! ## One value -/

/-- The parameter of an integer type that sends the integer. -/
def ofInteger (t : PgType) (n : ℤ) : Param :=
  match t with
  | .int2 => int2 (Int16.ofInt n)
  | .int4 => int4 (Int32.ofInt n)
  | _ => int8 (Int64.ofInt n)

theorem sends_ofInteger {t : PgType} {width : ℕ} {n : ℤ} (ht : t.width? = some width)
    (hn : Fits width n) : (ofInteger t n).Sends t n := by
  refine .of_bytes ht ?_ hn
  unfold Fits at hn
  cases t with
  | int2 =>
    cases ht
    have value : (Int16.ofInt n).toInt = n := Int16.toInt_ofInt_of_le (by omega) (by omega)
    exact congrArg (fun m => some (some (signedBytes 2 m))) value
  | int4 =>
    cases ht
    have value : (Int32.ofInt n).toInt = n := Int32.toInt_ofInt_of_le (by omega) (by omega)
    exact congrArg (fun m => some (some (signedBytes 4 m))) value
  | int8 =>
    cases ht
    have value : (Int64.ofInt n).toInt = n := Int64.toInt_ofInt_of_le (by omega) (by omega)
    exact congrArg (fun m => some (some (signedBytes 8 m))) value
  | _ => nomatch ht

theorem fits_word (w : Int64) : Fits 8 w.toInt := by
  have least := w.le_toInt
  have most := w.toInt_lt
  constructor <;> omega

/-- The integers between the bounds of a width are those that fit in its bytes. -/
theorem fits_iff {width : ℕ} (hwidth : 0 < width) {n : ℤ} :
    Fits width n ↔ -2 ^ (8 * width - 1) ≤ n ∧ n < 2 ^ (8 * width - 1) := by
  have bits : (256 : ℤ) ^ width = 2 * 2 ^ (8 * width - 1) := by
    have exponent : 8 * width = 8 * width - 1 + 1 := by omega
    rw [← Int.pow_succ', ← exponent, Int.pow_mul]
    rfl
  rw [Fits, bits]
  omega

theorem map_integerWithin? (width : ℕ) (hwidth : 0 < width) {v : Value} {f : ℤ → Param}
    {p : Param} : (integerWithin? (8 * width) v).map f = some p ↔
      ∃ w : Int64, v.integer? = some w ∧ Fits width w.toInt ∧ f w.toInt = p := by
  rw [integerWithin?, Option.map_eq_some_iff]
  simp only [Option.bind_eq_bind, Option.bind_eq_some_iff, Option.ite_none_right_eq_some,
    Option.some_inj, ← fits_iff hwidth]
  grind

/-- A value becomes a parameter of an integer type if it is read as an integer that fits; this
integer is sent. -/
theorem coerce?_eq_some_iff {v : Value} {t : PgType} {width : ℕ} {p : Param}
    (ht : t.width? = some width) (hv : v.isNull = false) : coerce? v t = some p ↔
      ∃ w : Int64, v.integer? = some w ∧ Fits width w.toInt ∧ ofInteger t w.toInt = p := by
  have value : coerce? v t = coerceValue? v t := by rw [coerce?, hv]; rfl
  rw [value]
  cases t with
  | int2 => cases ht; exact map_integerWithin? 2 (by decide)
  | int4 => cases ht; exact map_integerWithin? 4 (by decide)
  | int8 =>
    cases ht
    rw [coerceValue?, Option.map_eq_some_iff]
    simp only [ofInteger, Int64.ofInt_toInt, fits_word, true_and]
  | _ => nomatch ht

/-! ## The values of a statement -/

/-- The value in a place has no parameter of the type in this place; those before it have one. -/
structure FirstRefused (vs : List Value) (ts : List PgType) (i : ℕ) (v : Value) (t : PgType) :
    Prop where
  value : vs[i]? = some v
  type : ts[i]? = some t
  refused : coerce? v t = none
  before : ∀ j < i, ∀ w u, vs[j]? = some w → ts[j]? = some u → coerce? w u ≠ none

theorem firstRefused_cons_zero {v w : Value} {t u : PgType} {vs : List Value} {ts : List PgType} :
    FirstRefused (v :: vs) (t :: ts) 0 w u ↔ v = w ∧ t = u ∧ coerce? v t = none := by
  constructor
  · rintro ⟨⟨⟩, ⟨⟩, refused, -⟩
    exact ⟨rfl, rfl, refused⟩
  · rintro ⟨rfl, rfl, refused⟩
    exact ⟨rfl, rfl, refused, nofun⟩

theorem firstRefused_cons_succ {v w : Value} {t u : PgType} {vs : List Value} {ts : List PgType}
    {i : ℕ} : FirstRefused (v :: vs) (t :: ts) (i + 1) w u ↔
      coerce? v t ≠ none ∧ FirstRefused vs ts i w u := by
  constructor
  · rintro ⟨hw, hu, refused, before⟩
    exact ⟨before 0 i.succ_pos v t rfl rfl, hw, hu, refused,
      fun j hj => before (j + 1) (Nat.succ_lt_succ hj)⟩
  · rintro ⟨first, hw, hu, refused, before⟩
    refine ⟨hw, hu, refused, ?_⟩
    rintro (_ | j) hj x y hx hy
    · cases hx
      cases hy
      exact first
    · exact before j (Nat.lt_of_succ_lt_succ hj) x y hx hy

theorem coerceAll_nil (k : ℕ) (vs : List Value) : coerceAll k vs [] = .ok (vs.map ofValue) := by
  induction vs generalizing k with
  | nil => rfl
  | cons v vs ih => rw [coerceAll, ih]; rfl

theorem coerceAll_cons_eq_error_iff {v : Value} {vs : List Value} {t : PgType} {ts : List PgType}
    {k : ℕ} {e : QueryError} : coerceAll k (v :: vs) (t :: ts) = .error e ↔
      coerce? v t = none ∧ e = .coercion k t.label v.display ∨
      coerce? v t ≠ none ∧ coerceAll (k + 1) vs ts = .error e := by
  rw [coerceAll]
  cases coerce? v t with
  | none => simp [eq_comm]
  | some p => cases coerceAll (k + 1) vs ts <;> simp [bind, Except.bind, pure, Except.pure]

/-- Values are refused at the first that has no parameter of the type in its place. -/
theorem coerceAll_eq_error_iff {vs : List Value} {ts : List PgType} {k : ℕ} {e : QueryError} :
    coerceAll k vs ts = .error e ↔ ∃ i v t, FirstRefused vs ts i v t ∧
      e = .coercion (k + i) t.label v.display := by
  induction vs generalizing ts k with
  | nil =>
    constructor
    · exact nofun
    · rintro ⟨i, v, t, ⟨⟨⟩, -, -, -⟩, -⟩
  | cons v vs ih =>
    cases ts with
    | nil =>
      rw [coerceAll_nil]
      constructor
      · exact nofun
      · rintro ⟨i, v, t, ⟨-, ⟨⟩, -, -⟩, -⟩
    | cons t ts =>
      rw [coerceAll_cons_eq_error_iff, ih]
      constructor
      · rintro (⟨refused, rfl⟩ | ⟨first, i, w, u, h, rfl⟩)
        · exact ⟨0, v, t, firstRefused_cons_zero.2 ⟨rfl, rfl, refused⟩, rfl⟩
        · refine ⟨i + 1, w, u, firstRefused_cons_succ.2 ⟨first, h⟩, ?_⟩
          rw [Nat.add_right_comm, Nat.add_assoc]
      · rintro ⟨_ | i, w, u, h, rfl⟩
        · obtain ⟨rfl, rfl, refused⟩ := firstRefused_cons_zero.1 h
          exact .inl ⟨refused, rfl⟩
        · obtain ⟨first, h⟩ := firstRefused_cons_succ.1 h
          refine .inr ⟨first, i, w, u, h, ?_⟩
          rw [Nat.add_right_comm, Nat.add_assoc]

/-! ## The numbers that are sent -/

theorem exists_word {n : ℤ} (hn : Fits 8 n) : ∃ w : Int64, w.toInt = n := by
  unfold Fits at hn
  exact ⟨Int64.ofInt n, Int64.toInt_ofInt_of_le (by omega) (by omega)⟩

theorem Fits.of_width? {t : PgType} {width : ℕ} {n : ℤ} (ht : t.width? = some width)
    (hn : Fits width n) : Fits 8 n := by
  unfold Fits at *
  cases t <;> cases ht <;> omega

theorem fits_of_saturates {v : Value} {n : ℤ} (h : v.Saturates n) : Fits 8 n := by
  obtain ⟨-, m, -, -, ⟨-, rfl⟩ | ⟨-, rfl⟩⟩ := h <;> decide

/-- The nearest word to a double beyond the words needs all bytes of a word. -/
theorem eq_int8_of_saturates {v : Value} {t : PgType} {width : ℕ} {n : ℤ} (h : v.Saturates n)
    (ht : t.width? = some width) (hn : Fits width n) : t = .int8 := by
  obtain ⟨-, m, -, -, ⟨-, rfl⟩ | ⟨-, rfl⟩⟩ := h <;> cases t <;> cases ht <;>
    first | rfl | exact absurd hn (by decide)

section

variable {v : Value} {t : PgType} {width : ℕ}

/-- What a parameter sends is the number of its value, or the nearest word to it. -/
theorem exists_sends_of_coerce? {p : Param} (ht : t.width? = some width) (hv : v.isNull = false)
    (h : coerce? v t = some p) : ∃ n : ℤ, p.Sends t n ∧
      (v.Denotes n ∧ (∀ q, v.Denotes q → q = n) ∨ t = .int8 ∧ v.Saturates n) := by
  obtain ⟨w, hw, hfits, rfl⟩ := (coerce?_eq_some_iff ht hv).1 h
  refine ⟨w.toInt, sends_ofInteger ht hfits, ?_⟩
  obtain ⟨number, -⟩ | saturated := Value.integer?_eq_some_iff.1 hw
  · exact .inl ⟨number, fun q hq => hq.unique number⟩
  · exact .inr ⟨eq_int8_of_saturates saturated ht hfits, saturated⟩

theorem coerce?_eq_none_iff_integer? (ht : t.width? = some width) (hv : v.isNull = false) :
    coerce? v t = none ↔ ∀ w : Int64, v.integer? = some w → ¬Fits width w.toInt := by
  simp only [Option.eq_none_iff_forall_ne_some, ne_eq, coerce?_eq_some_iff ht hv]
  grind

/-- A value is refused if it is a fraction of a document, or if neither the number that it stands
for nor the nearest word to it is one of the type. -/
theorem coerce?_eq_none_iff (ht : t.width? = some width) (hv : v.isNull = false) :
    coerce? v t = none ↔ v.IsFraction ∨
      (∀ n : ℤ, v.Denotes n → ¬Fits width n) ∧ ∀ n, t = .int8 → ¬v.Saturates n := by
  rw [coerce?_eq_none_iff_integer? ht hv]
  constructor
  · intro unread
    refine or_iff_not_imp_left.2 fun whole => ⟨fun n hn hfits => ?_, ?_⟩
    · obtain ⟨w, rfl⟩ := exists_word (Fits.of_width? ht hfits)
      exact unread w (Value.integer?_eq_some_iff.2 (.inl ⟨hn, whole⟩)) hfits
    · rintro n rfl hn
      cases ht
      obtain ⟨w, rfl⟩ := exists_word (fits_of_saturates hn)
      exact unread w (Value.integer?_eq_some_iff.2 (.inr hn)) (fits_word w)
  · intro beyond w hw hfits
    obtain ⟨number, whole⟩ | saturated := Value.integer?_eq_some_iff.1 hw
    · obtain fraction | ⟨outside, -⟩ := beyond
      · exact whole fraction
      · exact outside _ number hfits
    · obtain ⟨x, rfl⟩ | ⟨-, unsaturated⟩ := beyond
      · obtain ⟨y, m, ⟨⟩, -⟩ := saturated
      · exact unsaturated _ (eq_int8_of_saturates saturated ht hfits) saturated

/-- A value that is not null and that becomes a parameter of an integer type is sent as the one
number that it stands for, unless it is a double beyond the words of 64 bits, for which the nearest
word is sent.  It is refused if it is a fraction of a document, or if it stands for no integer of
the type and is no such double.  A statement is refused at the first of its values that is refused,
with the position of this value. -/
theorem integers_coerced (ht : t.width? = some width) (hv : v.isNull = false) :
    (∀ p, coerce? v t = some p → ∃ n : ℤ, p.Sends t n ∧
      (v.Denotes n ∧ (∀ q, v.Denotes q → q = n) ∨ t = .int8 ∧ v.Saturates n)) ∧
    (coerce? v t = none ↔ v.IsFraction ∨
      (∀ n : ℤ, v.Denotes n → ¬Fits width n) ∧ ∀ n, t = .int8 → ¬v.Saturates n) ∧
    ∀ vs ts e, coerceAll 1 vs ts = .error e ↔ ∃ i w u, FirstRefused vs ts i w u ∧
      e = .coercion (i + 1) u.label w.display := by
  refine ⟨fun p => exists_sends_of_coerce? ht hv, coerce?_eq_none_iff ht hv, fun vs ts e => ?_⟩
  simp only [coerceAll_eq_error_iff, Nat.add_comm 1]

end

/-- The double 2 ^ 63, the first one beyond the words. -/
def beyondWords : Double := ⟨0x43e0000000000000⟩

theorem coerce?_beyondWords :
    coerce? (.float beyondWords) .int8 = some (ofInteger .int8 (2 ^ 63 - 1)) := rfl

/-- It is sent as the largest word.  Of two numbers of 16 bits the second is refused, which does not
fit. -/
theorem beyondWords_coerced :
    (∃ n : ℤ, (ofInteger .int8 (2 ^ 63 - 1)).Sends .int8 n ∧
      ((Value.float beyondWords).Denotes n ∧ (∀ q, (Value.float beyondWords).Denotes q → q = n) ∨
        PgType.int8 = .int8 ∧ (Value.float beyondWords).Saturates n)) ∧
    coerceAll 1 [.int 32767, .int 32768] [.int2, .int2] =
      .error (.coercion 2 "int2" "32768") := by
  have sent := integers_coerced (v := .float beyondWords) (t := .int8) rfl rfl
  refine ⟨sent.1 _ coerce?_beyondWords, (sent.2.2 _ _ _).2
    ⟨1, .int 32768, .int2, firstRefused_cons_succ.2 ⟨Option.some_ne_none (int2 32767),
      firstRefused_cons_zero.2 ⟨rfl, rfl, rfl⟩⟩, rfl⟩⟩

/-- The number that it stands for is not sent. -/
theorem beyondWords_changed : ∃ p q, coerce? (.float beyondWords) .int8 = some p ∧
    (Value.float beyondWords).Denotes q ∧ ∀ n : ℤ, p.Sends .int8 n → (n : ℚ) ≠ q := by
  have number : beyondWords.value? = some ((2 ^ 63 : ℤ) : ℚ) :=
    Double.value?_eq_intCast_iff.2 ⟨by decide, by decide⟩
  refine ⟨_, _, coerce?_beyondWords, .float number, fun n hn => ?_⟩
  rw [hn.unique (sends_ofInteger rfl (by decide)), ne_eq, Int.cast_inj]
  decide

end Param

end FilterSql.Postgres
