import FilterSql.Proofs.Double.Errors

/-!
# Decimals as doubles

A decimal becomes a double in up to seven rounded operations.  The double is within `2⁻⁴⁸` of the
decimal (`exists_near`), and closer if the decimal has at most 15 digits: its whole part, its
fraction and its power of ten are exact then, or the whole part is zero, so that the product with
the power is rounded back to the coefficient itself.
-/

namespace FilterSql.Decimal

open Double

/-- The number without its sign. -/
def magnitude (d : Decimal) : ℚ := d.coefficient / 10 ^ d.scale

/-- The number that a decimal stands for. -/
def value (d : Decimal) : ℚ := if d.negative then -d.magnitude else d.magnitude

theorem magnitude_nonneg (d : Decimal) : 0 ≤ d.magnitude := by
  unfold magnitude
  positivity

theorem magnitude_eq (d : Decimal) : d.magnitude = d.coefficient / (10 ^ d.scale : ℕ) := by
  rw [magnitude, Nat.cast_pow, Nat.cast_ofNat]

theorem magnitude_of_integer {d : Decimal} (h : d.coefficient % 10 ^ d.scale = 0) :
    d.magnitude = (d.coefficient / 10 ^ d.scale : ℕ) := by
  rw [magnitude_eq, Binary.cast_div_eq _ (Nat.pow_pos (by decide)), h, Nat.cast_zero, zero_div,
    add_zero]

theorem abs_value (d : Decimal) : |d.value| = d.magnitude := by
  unfold value
  split_ifs
  · rw [abs_neg, abs_of_nonneg d.magnitude_nonneg]
  · exact abs_of_nonneg d.magnitude_nonneg

/-- An integer that doubles hold. -/
def SmallInteger (d : Decimal) : Prop :=
  d.coefficient % 10 ^ d.scale = 0 ∧ d.coefficient / 10 ^ d.scale ≤ 2 ^ 53

/-- How near the number of a double is to a decimal. -/
structure Near (d : Decimal) (v : ℚ) : Prop where
  near : |v - d.value| ≤ |d.value| / 2 ^ 48
  short : d.coefficient < 10 ^ 15 → |v - d.value| ≤ |d.value| / 2 ^ 51
  integer : d.SmallInteger → v = d.value

/-- A double of the same sign is as near as its magnitude. -/
theorem Near.signed {d : Decimal} {a : ℚ} (near : Within (1 / 2 ^ 48) a d.magnitude)
    (short : d.coefficient < 10 ^ 15 → Within (1 / 2 ^ 51) a d.magnitude)
    (integer : d.SmallInteger → a = d.magnitude) : d.Near (if d.negative then -a else a) := by
  have distance : |(if d.negative then -a else a) - d.value| = |a - d.magnitude| := by
    unfold value
    split_ifs
    · rw [neg_sub_neg, abs_sub_comm]
    · rfl
  refine ⟨?_, fun h => ?_, fun h => ?_⟩
  · rw [distance, abs_value, ← one_div_mul_eq_div]
    exact near
  · rw [distance, abs_value, ← one_div_mul_eq_div]
    exact short h
  · rw [integer h, value]

theorem Near.of_rounded {d : Decimal} {a : ℚ} (h : Rounded d.magnitude a)
    (integer : d.SmallInteger → a = d.magnitude) : d.Near (if d.negative then -a else a) :=
  .signed (h.within.mono d.magnitude_nonneg (by norm_num))
    (fun _ => h.within.mono d.magnitude_nonneg (by norm_num)) integer

/-! ## The operations -/

section

variable {x y z : Double} {a b c : ℚ}

/-- Two parts are brought to one, which is multiplied by the power of ten. -/
theorem exists_product (hx : x.Holds false a) (hy : y.Holds false b) (hz : z.Holds false c)
    (ha : a ≤ 2 ^ 97) (hb : Spans 97 b) (hc : Spans 97 c) :
    ∃ m, ((addMagnitudes x (y.divFinite z)).mulFinite z).Holds false m ∧
      Within (4 / 2 ^ 53) m (a * c + b) := by
  have quotient := hb.div hc
  obtain ⟨f, hf, partRounded⟩ := hy.div hz hc.pos.ne' (quotient.inRange (by decide))
  have part := quotient.rounded partRounded
  have total := part.add hx.nonneg (ha.trans (by norm_num))
  obtain ⟨s, hs, sumRounded⟩ := hx.add hf (total.inRange (by decide))
  have product := (total.rounded sumRounded).mul hc
  obtain ⟨m, hm, productRounded⟩ := hs.mul hz (product.inRange (by decide))
  refine ⟨m, hm, ?_⟩
  have sum : Within (1 / 2 ^ 53) (a + f) (a + b / c) :=
    (Within.refl hx.nonneg (by norm_num)).add partRounded.within
  have scaled := (sumRounded.within.trans sum (by norm_num)).mul_right hc.pos.le
  rw [add_mul, div_mul_cancel₀ _ hc.pos.ne'] at scaled
  refine (productRounded.within.trans scaled (by norm_num)).mono ?_ (by norm_num)
  have := mul_nonneg hx.nonneg hc.pos.le
  linarith [hb.pos]

/-- The product is rounded to an integer, and divided by the power of ten. -/
theorem exists_quotient {k p : ℕ} {m : ℚ} (hx : x.Holds false m) (hz : z.Holds false c)
    (power : Rounded p c) (hk : Spans 97 k) (hp : Spans 96 p) (h : Within (8 / 2 ^ 53) m k) :
    ∃ v, ((roundAway x).divFinite z).Holds false v ∧ Within (1 / 2 ^ 48) v (k / p) ∧
      (k < 10 ^ 15 → Within (4 / 2 ^ 53) m k → Within (1 / 2 ^ 51) v (k / p)) := by
  obtain ⟨n, near, next⟩ := hx.roundAway
  have integer := (h.integer near).1
  have count := hk.within integer (by norm_num)
  obtain ⟨a, ha, countRounded⟩ := next (count.inRange (by decide))
  have hc := hp.rounded power
  have quotient := (count.rounded countRounded).div hc
  obtain ⟨v, hv, quotientRounded⟩ := ha.div hz hc.pos.ne' (quotient.inRange (by decide))
  have nonneg : (0 : ℚ) ≤ k / p := by positivity
  have denominator : Within (2 * (1 / 2 ^ 53)) (k / c : ℚ) (k / p) :=
    power.within.div_left hp.pos (by norm_num) k.cast_nonneg
  refine ⟨v, hv, ?_, fun short close => ?_⟩
  · have numerator := (countRounded.within.trans integer (by norm_num)).div_right hc.pos.le
    have exact := numerator.trans denominator (by norm_num)
    exact (quotientRounded.within.trans exact (by norm_num)).mono nonneg (by norm_num)
  · have small : (k : ℚ) < 10 ^ 15 := by exact_mod_cast short
    obtain rfl : n = k := (close.integer near).2 (by linarith)
    obtain rfl : a = n := countRounded.eq_natCast (by omega)
    exact (quotientRounded.within.trans denominator (by norm_num)).mono nonneg (by norm_num)

end

/-! ## The parts of a decimal -/

section

variable {c s : ℕ} {w r p : ℚ}

theorem cast_parts (c s : ℕ) :
    ((c / 10 ^ s : ℕ) : ℚ) * (10 ^ s : ℕ) + (c % 10 ^ s : ℕ) = c := by
  exact_mod_cast Nat.div_add_mod' c (10 ^ s)

/-- The rounded parts make up about the coefficient. -/
theorem within_parts (whole : Rounded (c / 10 ^ s : ℕ) w) (rest : Rounded (c % 10 ^ s : ℕ) r)
    (power : Rounded (10 ^ s : ℕ) p) (hp : 0 ≤ p) : Within (3 / 2 ^ 53) (w * p + r) c := by
  have product : Within (1 / 2 ^ 53) (((c / 10 ^ s : ℕ) : ℚ) * p)
      ((c / 10 ^ s : ℕ) * (10 ^ s : ℕ)) := by
    rw [mul_comm, mul_comm (Nat.cast (c / 10 ^ s))]
    exact power.within.mul_right (Nat.cast_nonneg _)
  have scaled := (whole.within.mul_right hp).trans product (by norm_num)
  have sum := (scaled.mono (by positivity) (by norm_num)).add
    (rest.within.mono (Nat.cast_nonneg _) (by norm_num : _ ≤ (3 / 2 ^ 53 : ℚ)))
  rwa [cast_parts] at sum

/-- The parts of up to 15 digits make up the coefficient. -/
theorem parts_of_short (short : c < 10 ^ 15) (whole : Rounded (c / 10 ^ s : ℕ) w)
    (rest : Rounded (c % 10 ^ s : ℕ) r) (power : Rounded (10 ^ s : ℕ) p) : w * p + r = c := by
  have small := Nat.div_le_self c (10 ^ s)
  have smaller := Nat.mod_le c (10 ^ s)
  rw [whole.eq_natCast (by omega), rest.eq_natCast (by omega)]
  obtain few | many := Nat.lt_or_ge 22 s
  · -- All digits are places.
    have places : c < 10 ^ s := short.trans (Nat.pow_lt_pow_right (by decide) (by omega))
    rw [Nat.div_eq_of_lt places, Nat.mod_eq_of_lt places, Nat.cast_zero, zero_mul, zero_add]
  · have five : 5 ^ s < 2 ^ 53 :=
      (Nat.pow_le_pow_right (by decide) many).trans_lt (by decide)
    have factors : ((10 ^ s : ℕ) : ℚ) = (5 ^ s : ℕ) * 2 ^ (s : ℤ) := by
      rw [zpow_natCast]
      exact_mod_cast Nat.mul_pow 5 2 s
    rw [power.exact _ _ five factors]
    exact cast_parts c s

/-- A decimal with a fraction is near to what its rounded parts make up. -/
theorem exists_fraction (hc : c < 2 ^ 96) (hs : s ≤ 28) (hr : c % 10 ^ s ≠ 0) :
    let scale := ofQuotient false (10 ^ s) 1
    let part := (ofQuotient false (c % 10 ^ s) 1).divFinite scale
    let sum := addMagnitudes (ofQuotient false (c / 10 ^ s) 1) part
    ∃ v, ((roundAway (sum.mulFinite scale)).divFinite scale).Holds false v ∧
      Within (1 / 2 ^ 48) v (c / (10 ^ s : ℕ)) ∧
      (c < 10 ^ 15 → Within (1 / 2 ^ 51) v (c / (10 ^ s : ℕ))) := by
  intro scale part sum
  have large : 10 ^ s < 2 ^ 96 := (Nat.pow_le_pow_right (by decide) hs).trans_lt (by decide)
  have small := Nat.div_le_self c (10 ^ s)
  have smaller := Nat.mod_le c (10 ^ s)
  have spans {n : ℕ} (hn : n ≠ 0) (h : n < 2 ^ 96) : Spans 96 n :=
    .natCast hn (by exact_mod_cast h.le)
  obtain ⟨p, hp, power⟩ := exists_holds_natural false large
  obtain ⟨w, hw, whole⟩ := exists_holds_natural false (small.trans_lt hc)
  obtain ⟨r, hr', rest⟩ := exists_holds_natural false (smaller.trans_lt hc)
  have most : w ≤ 2 ^ 97 := by
    have bound : ((c / 10 ^ s : ℕ) : ℚ) ≤ 2 ^ 96 := by exact_mod_cast (small.trans_lt hc).le
    have := whole.within.le
    linarith
  have tens := spans (pow_ne_zero s (by decide)) large
  have spanr := (spans hr (smaller.trans_lt hc)).rounded rest
  have spanp := tens.rounded power
  have spanc := (spans (by rintro rfl; simp at hr) hc).mono (Nat.le_succ 96)
  obtain ⟨m, hm, product⟩ := exists_product hw hr' hp most spanr spanp
  have sums := within_parts whole rest power hp.nonneg
  have close : Within (8 / 2 ^ 53) m c :=
    (product.trans sums (by norm_num)).mono c.cast_nonneg (by norm_num)
  obtain ⟨v, hv, near, nearer⟩ := exists_quotient hm hp power spanc tens close
  refine ⟨v, hv, near, fun short => nearer short ?_⟩
  rwa [parts_of_short short whole rest power] at product

end

/-! ## Decimals -/

theorem value?_signed {x : Double} {s : Bool} {a : ℚ} (h : x.Holds false a) :
    (if s then x.neg else x).value? = some (if s then -a else a) := by
  cases s
  · exact h.value?
  · exact h.neg.value?

theorem exists_near_of_scale {d : Decimal} (hscale : d.scale = 0) :
    ∃ v, d.toDouble.value? = some v ∧ d.Near v := by
  have magnitude : d.magnitude = d.coefficient := by
    rw [magnitude_eq, hscale, pow_zero, Nat.cast_one, div_one]
  obtain ⟨a, ha, near⟩ := exists_holds_natural d.negative d.coefficient_lt
  rw [← magnitude] at near
  refine ⟨_, ?_, .of_rounded near fun h => ?_⟩
  · rw [toDouble, if_pos hscale]
    by_cases zero : d.coefficient = 0
    · -- Zero has no sign, whatever the decimal says.
      obtain rfl : a = 0 := by simpa [magnitude, zero] using near.near
      rw [if_pos zero, (holds_zero false).value?]
      simp
    · rw [if_neg zero]
      exact ha.value?
  · have small := h.2
    rw [hscale, pow_zero, Nat.div_one] at small
    rw [magnitude] at near ⊢
    exact near.eq_natCast small

theorem exists_near_of_integer {d : Decimal} (hscale : d.scale ≠ 0)
    (hrest : d.coefficient % 10 ^ d.scale = 0) :
    ∃ v, d.toDouble.value? = some v ∧ d.Near v := by
  have small := (Nat.div_le_self d.coefficient (10 ^ d.scale)).trans_lt d.coefficient_lt
  have magnitude := magnitude_of_integer hrest
  obtain ⟨a, ha, near⟩ := exists_holds_natural false small
  refine ⟨_, ?_, .of_rounded (magnitude ▸ near) fun h => ?_⟩
  · simp only [toDouble, if_neg hscale, if_pos hrest]
    exact value?_signed ha
  · rw [magnitude, near.eq_natCast h.2]

/-- The double of a decimal is near to it. -/
theorem exists_near (d : Decimal) : ∃ v, d.toDouble.value? = some v ∧ d.Near v := by
  by_cases hscale : d.scale = 0
  · exact exists_near_of_scale hscale
  by_cases hrest : d.coefficient % 10 ^ d.scale = 0
  · exact exists_near_of_integer hscale hrest
  obtain ⟨a, ha, near, nearer⟩ := exists_fraction d.coefficient_lt d.scale_le hrest
  rw [← magnitude_eq] at near nearer
  refine ⟨_, ?_, .signed near nearer fun h => absurd h.1 hrest⟩
  simp only [toDouble, if_neg hscale, if_neg hrest]
  exact value?_signed ha

/-! ## Decimals apart -/

/-- The decimal has at most 15 digits, or is an integer that doubles hold. -/
def Plain (d : Decimal) : Prop := d.coefficient < 10 ^ 15 ∨ d.SmallInteger

instance (d : Decimal) : Decidable d.Plain :=
  inferInstanceAs (Decidable (_ ∨ (_ ∧ _)))

/-- The number of a double is nearer to `q`, a number of `s` places, than to any other. -/
structure Sharp (s : ℕ) (q v : ℚ) : Prop where
  near : |v - q| ≤ |q| / 2 ^ 51
  places : ∃ n : ℤ, q * 10 ^ s = n
  digits : s = 0 ∧ v = q ∨ |q| * 10 ^ s < 10 ^ 15

/-- The doubles of plain decimals are sharp. -/
theorem Near.exists_sharp {d : Decimal} {v : ℚ} (h : d.Near v) (plain : d.Plain) :
    ∃ s, Sharp s d.value v := by
  have signed {q : ℚ} {n : ℕ} (hq : q = n) : ∃ k : ℤ, (if d.negative then -q else q) = k :=
    ⟨if d.negative then -n else n, by split_ifs <;> simp [hq]⟩
  obtain short | integer := plain
  · have power : (10 : ℚ) ^ d.scale ≠ 0 := pow_ne_zero _ (by norm_num)
    have digits : d.magnitude * 10 ^ d.scale = d.coefficient := div_mul_cancel₀ _ power
    refine ⟨d.scale, h.short short, ?_, .inr ?_⟩
    · obtain ⟨k, hk⟩ := signed digits
      exact ⟨k, by rw [← hk, value]; split_ifs <;> ring⟩
    · rw [abs_value, digits]
      exact_mod_cast short
  · have exact := h.integer integer
    refine ⟨0, ?_, ?_, .inl ⟨rfl, exact⟩⟩
    · rw [exact, sub_self, abs_zero]
      positivity
    · rw [pow_zero, mul_one]
      exact signed (magnitude_of_integer integer.1)

section

variable {s t : ℕ} {p q v : ℚ}

/-- Numbers of as many places are the same if less than one unit of the last place lies between
them. -/
theorem eq_of_places (hle : s ≤ t) (hp : ∃ m : ℤ, p * 10 ^ s = m) (hq : ∃ n : ℤ, q * 10 ^ t = n)
    (close : |p - q| * 10 ^ t < 1) : p = q := by
  have places : (0 : ℚ) < 10 ^ t := by positivity
  obtain ⟨m, hm⟩ := hp
  obtain ⟨n, hn⟩ := hq
  obtain ⟨k, rfl⟩ := Nat.exists_eq_add_of_le hle
  have integer : (p - q) * 10 ^ (s + k) = (m * 10 ^ k - n : ℤ) := by
    push_cast
    rw [sub_mul, hn, pow_add, ← mul_assoc, hm]
  have zero : m * 10 ^ k - n = 0 := by
    rw [← Int.abs_lt_one_iff]
    rw [← abs_of_pos places, ← abs_mul, integer] at close
    exact_mod_cast close
  rw [zero, Int.cast_zero] at integer
  exact sub_eq_zero.1 ((mul_eq_zero.1 integer).resolve_right places.ne')

/-- There is less than one unit of the last place between numbers of one double. -/
theorem Sharp.distance_lt (hp : Sharp s p v) (hq : Sharp t q v) (hle : s ≤ t) :
    |p - q| * 10 ^ t < 1 := by
  obtain ⟨rfl, exact⟩ | digits := hq.digits
  · obtain rfl := Nat.le_zero.1 hle
    rw [pow_zero, mul_one, ← exact, abs_sub_comm]
    obtain ⟨-, same⟩ | digits := hp.digits
    · rw [same, sub_self, abs_zero]
      exact one_pos
    · rw [pow_zero, mul_one] at digits
      linarith [hp.near]
  · have apart : |p - q| ≤ |p| / 2 ^ 51 + |q| / 2 ^ 51 := by
      calc |p - q| = |(v - q) - (v - p)| := by rw [sub_sub_sub_cancel_left]
        _ ≤ |v - q| + |v - p| := abs_sub _ _
        _ ≤ |p| / 2 ^ 51 + |q| / 2 ^ 51 := by linarith [hp.near, hq.near]
    have size : |p| ≤ |q| + |p - q| := by
      have := abs_add_le q (p - q)
      rwa [add_sub_cancel] at this
    have distance : |p - q| ≤ |q| * (1 / 10 ^ 15) := by linarith [abs_nonneg q]
    have scaled := mul_le_mul_of_nonneg_right distance (by positivity : (0 : ℚ) ≤ 10 ^ t)
    linarith

theorem Sharp.eq (hp : Sharp s p v) (hq : Sharp t q v) : p = q := by
  obtain hle | hle := le_total s t
  · exact eq_of_places hle hp.places hq.places (hp.distance_lt hq hle)
  · exact (eq_of_places hle hq.places hp.places (hq.distance_lt hp hle)).symm

end

/-- Two decimals have different doubles if both are plain, or if they are not too close. -/
theorem Near.ne {d e : Decimal} {v w : ℚ} (hv : d.Near v) (hw : e.Near w)
    (h : d.value ≠ e.value)
    (apart : d.Plain ∧ e.Plain ∨ max |d.value| |e.value| / 2 ^ 47 < |d.value - e.value|) :
    v ≠ w := by
  rintro rfl
  obtain ⟨hd, he⟩ | far := apart
  · obtain ⟨s, hs⟩ := hv.exists_sharp hd
    obtain ⟨t, ht⟩ := hw.exists_sharp he
    exact h (hs.eq ht)
  · have left := le_max_left |d.value| |e.value|
    have right := le_max_right |d.value| |e.value|
    have close : |d.value - e.value| ≤ |v - e.value| + |v - d.value| := by
      have := abs_sub (v - e.value) (v - d.value)
      rwa [sub_sub_sub_cancel_left] at this
    linarith [hv.near, hw.near]

end FilterSql.Decimal
