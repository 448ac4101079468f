import FilterSql.Proofs.Double.Order
import FilterSql.Value.Compare

/-!
# The order of values

Comparing values in the other order gives the opposite (`Value.compare?_swap`).  The order is
transitive but for integers that a double merges: an integer is compared with a double after it is
rounded to one, so a double can be equal to several integers, which are not equal to each other
(`Value.compare_consistent`, `Value.neighbours_inconsistent`).
-/

namespace FilterSql

open Std (OrientedCmp TransCmp)

instance : TransCmp Moment.order :=
  inferInstanceAs (TransCmp (compareLex (compareOn Moment.seconds) (compareOn Moment.nanos)))

namespace Value

/-- Comparing in the other order gives the opposite. -/
theorem compare?_swap (v w : Value) : w.compare? v = (v.compare? w).map Ordering.swap := by
  cases v with
  | int m =>
    cases w with
    | int n => exact congrArg some OrientedCmp.eq_swap
    | float y => exact Double.compare?_swap _ y
    | _ => rfl
  | float x =>
    cases w with
    | int n => exact Double.compare?_swap x _
    | float y => exact Double.compare?_swap x y
    | _ => rfl
  | uint m => cases w with
    | uint n => exact congrArg some OrientedCmp.eq_swap
    | _ => rfl
  | string s => cases w with
    | string t => exact congrArg some OrientedCmp.eq_swap
    | _ => rfl
  | bool a => cases w with
    | bool b => exact congrArg some OrientedCmp.eq_swap
    | _ => rfl
  | date d => cases w with
    | date e => exact congrArg some OrientedCmp.eq_swap
    | _ => rfl
  | timestamp s => cases w with
    | timestamp t => exact congrArg some OrientedCmp.eq_swap
    | _ => rfl
  | json | uuid | bytes | localTime | null => cases w <;> rfl

/-- The value is less than the other or equal to it. -/
def AtMost (v w : Value) : Prop := ∃ o, v.compare? w = some o ∧ o.isLE = true

/-- A transitive comparison never goes back. -/
theorem ne_gt_of_trans {α : Type} (cmp : α → α → Ordering) [TransCmp cmp] {a b c : α}
    (hab : ∃ o, some (cmp a b) = some o ∧ o.isLE = true)
    (hbc : ∃ o, some (cmp b c) = some o ∧ o.isLE = true) : some (cmp a c) ≠ some .gt := by
  obtain ⟨_, ho, hab⟩ := hab
  obtain rfl := Option.some.inj ho
  obtain ⟨_, ho, hbc⟩ := hbc
  obtain rfl := Option.some.inj ho
  have hac := TransCmp.isLE_trans hab hbc
  intro hgt
  rw [Option.some.inj hgt] at hac
  cases hac

/-! ## Numbers -/

/-- The value is an integer or a double. -/
inductive IsNumber : Value → Prop
  | int (n : Int64) : IsNumber (.int n)
  | float (x : Double) : IsNumber (.float x)

/-- The place of a number, integers being rounded to doubles. -/
def place? : Value → Option Double.Place
  | .int n => some ((Double.roundedInt n.toInt : WithTop ℚ) : Double.Place)
  | .float x => x.place?
  | _ => none

theorem place?_ofInt (n : Int64) : (Double.ofInt n.toInt).place? = place? (.int n) := by
  have low := n.le_toInt
  have high := n.toInt_lt
  exact Double.place?_of_value? (Double.value?_ofInt (by omega))

/-- Numbers compare as their places, but for two integers. -/
theorem compare?_of_place {v w : Value} (hv : v.IsNumber) (hw : w.IsNumber)
    (mixed : ∀ m n, v = .int m → w ≠ .int n) :
    v.compare? w = v.place?.bind fun p => w.place?.map fun q => compare p q := by
  cases hv with
  | int m =>
    cases hw with
    | int n => exact absurd rfl (mixed m n rfl)
    | float y => rw [compare?, Double.compare?_eq, place?_ofInt]; rfl
  | float x =>
    cases hw with
    | int n => rw [compare?, Double.compare?_eq, place?_ofInt]; rfl
    | float y => exact Double.compare?_eq x y

/-- What comes before a number is one, and stands before it. -/
theorem AtMost.place_le {v w : Value} (h : v.AtMost w) (hv : v.IsNumber) :
    w.IsNumber ∧ ∃ p q, v.place? = some p ∧ w.place? = some q ∧ p ≤ q := by
  obtain ⟨o, ho, hle⟩ := h
  have hw : w.IsNumber := by
    cases hv <;> cases w <;> first | exact .int _ | exact .float _ | nomatch ho
  refine ⟨hw, ?_⟩
  by_cases integers : ∃ m n, v = .int m ∧ w = .int n
  · obtain ⟨m, n, rfl, rfl⟩ := integers
    obtain rfl := Option.some.inj ho
    have ordered : m.toInt ≤ n.toInt := compare_le_iff_le.1 (Ordering.isLE_iff_ne_gt.1 hle)
    exact ⟨_, _, rfl, rfl, Double.place_roundedInt_mono ordered⟩
  · rw [compare?_of_place hv hw fun m n hm hn => integers ⟨m, n, hm, hn⟩] at ho
    obtain ⟨p, hp, ho⟩ := Option.bind_eq_some_iff.1 ho
    obtain ⟨q, hq, rfl⟩ := Option.map_eq_some_iff.1 ho
    exact ⟨p, q, hp, hq, compare_le_iff_le.1 (Ordering.isLE_iff_ne_gt.1 hle)⟩

/-- Two integers, the larger one first, and between them a double that is equal to both. -/
inductive Merged : Value → Value → Value → Prop
  | mk {m n : Int64} {x : Double} (less : n.toInt < m.toInt)
    (left : (int m).compare? (float x) = some .eq)
    (right : (float x).compare? (int n) = some .eq) : Merged (int m) (float x) (int n)

/-- Numbers are in order, unless they are integers that a double merges. -/
theorem gt_iff_merged {u v w : Value} (hu : u.IsNumber) (huv : u.AtMost v) (hvw : v.AtMost w) :
    u.compare? w = some .gt ↔ Merged u v w := by
  obtain ⟨hv, p, q, hp, hq, hpq⟩ := huv.place_le hu
  obtain ⟨hw, q', r, hq', hr, hqr⟩ := hvw.place_le hv
  obtain rfl := Option.some.inj (hq.symm.trans hq')
  constructor
  · intro hgt
    by_cases integers : ∃ m n, u = .int m ∧ w = .int n
    · obtain ⟨m, n, rfl, rfl⟩ := integers
      have less : n.toInt < m.toInt := compare_gt_iff_gt.1 (Option.some.inj hgt)
      cases hv with
      | int k => exact absurd hgt (ne_gt_of_trans (compareOn Int64.toInt) huv hvw)
      | float x =>
        -- The integers are rounded to places in their order, so all three places are the same.
        have back : r ≤ p := by
          obtain rfl := Option.some.inj hp
          obtain rfl := Option.some.inj hr
          exact Double.place_roundedInt_mono less.le
        obtain rfl : p = q := le_antisymm hpq (hqr.trans back)
        obtain rfl : p = r := le_antisymm hqr back
        exact .mk less (Double.compare?_eq_eq_iff.2 ⟨p, (place?_ofInt m).trans hp, hq⟩)
          (Double.compare?_eq_eq_iff.2 ⟨p, hq, (place?_ofInt n).trans hr⟩)
    · rw [compare?_of_place hu hw fun m n hm hn => integers ⟨m, n, hm, hn⟩, hp, hr] at hgt
      have beyond : r < p := compare_gt_iff_gt.1 (Option.some.inj hgt)
      exact absurd (hpq.trans hqr) (not_le.2 beyond)
  · rintro ⟨less, -, -⟩
    exact congrArg some (compare_gt_iff_gt.2 less)

/-- One of two integers that a double merges has more than 53 bits. -/
theorem Merged.large {u v w : Value} (h : Merged u v w) :
    ∃ m n, u = int m ∧ w = int n ∧ (2 ^ 53 < m.toInt.natAbs ∨ 2 ^ 53 < n.toInt.natAbs) := by
  obtain @⟨m, n, x, less, left, right⟩ := h
  refine ⟨m, n, rfl, rfl, ?_⟩
  obtain ⟨p, hm, hx⟩ := Double.compare?_eq_eq_iff.1 left
  obtain ⟨q, hx', hn⟩ := Double.compare?_eq_eq_iff.1 right
  obtain rfl := Option.some.inj (hx.symm.trans hx')
  have places := Option.some.inj ((place?_ofInt m).symm.trans (hm.trans (hn.symm.trans
    (place?_ofInt n))))
  have rounded := WithTop.coe_injective (WithBot.coe_injective places)
  by_contra small
  rw [Double.roundedInt_eq (by omega), Double.roundedInt_eq (by omega)] at rounded
  have same : m.toInt = n.toInt := Int.cast_injective rounded
  omega

/-! ## All values -/

/-- Values that are no numbers are compared in their own orders. -/
theorem ne_gt {u v w : Value} (hu : ¬u.IsNumber) (huv : u.AtMost v) (hvw : v.AtMost w) :
    u.compare? w ≠ some .gt := by
  cases u with
  | int n => exact absurd (.int n) hu
  | float x => exact absurd (.float x) hu
  | uint a =>
    cases v with
    | uint b =>
      cases w with
      | uint c => exact ne_gt_of_trans (compareOn UInt64.toNat) huv hvw
      | _ => nofun
    | _ => nomatch huv
  | string a =>
    cases v with
    | string b =>
      cases w with
      | string c => exact ne_gt_of_trans compare huv hvw
      | _ => nofun
    | _ => nomatch huv
  | bool a =>
    cases v with
    | bool b =>
      cases w with
      | bool c => exact ne_gt_of_trans (compareOn Bool.toNat) huv hvw
      | _ => nofun
    | _ => nomatch huv
  | date a =>
    cases v with
    | date b =>
      cases w with
      | date c => exact ne_gt_of_trans (compareOn Date.days) huv hvw
      | _ => nofun
    | _ => nomatch huv
  | timestamp a =>
    cases v with
    | timestamp b =>
      cases w with
      | timestamp c => exact ne_gt_of_trans Moment.order huv hvw
      | _ => nofun
    | _ => nomatch huv
  | json | uuid | bytes | localTime | null => nomatch huv

/-- Comparing in the other order gives the opposite.  The order is transitive, but for two integers
and a double between them that is equal to both; one of these has more than 53 bits. -/
theorem compare_consistent (u v w : Value) :
    v.compare? u = (u.compare? v).map Ordering.swap ∧
      (u.AtMost v → v.AtMost w → (u.compare? w = some .gt ↔ Merged u v w)) ∧
        (Merged u v w → ∃ m n, u = int m ∧ w = int n ∧
          (2 ^ 53 < m.toInt.natAbs ∨ 2 ^ 53 < n.toInt.natAbs)) := by
  refine ⟨compare?_swap u v, fun huv hvw => ?_, Merged.large⟩
  by_cases hu : u.IsNumber
  · exact gt_iff_merged hu huv hvw
  · refine iff_of_false (ne_gt hu huv hvw) ?_
    rintro ⟨-, -, -⟩
    exact hu (.int _)

/-- The double `2 ^ 53` is equal to `2 ^ 53 + 1` and to `2 ^ 53`. -/
theorem compare_consistent_neighbours :
    (int 9007199254740993).AtMost (float ⟨0x4340000000000000⟩) ∧
      (float ⟨0x4340000000000000⟩).AtMost (int 9007199254740992) ∧
        Merged (int 9007199254740993) (float ⟨0x4340000000000000⟩) (int 9007199254740992) :=
  have left : (int 9007199254740993).AtMost (float ⟨0x4340000000000000⟩) := ⟨.eq, by decide, rfl⟩
  have right : (float ⟨0x4340000000000000⟩).AtMost (int 9007199254740992) := ⟨.eq, by decide, rfl⟩
  ⟨left, right, ((compare_consistent _ _ _).2.1 left right).1 (by decide)⟩

/-- Each of these values is equal to the next, but the first is greater than the last. -/
theorem neighbours_inconsistent :
    (int 9007199254740993).compare? (float ⟨0x4340000000000000⟩) = some .eq ∧
      (float ⟨0x4340000000000000⟩).compare? (int 9007199254740992) = some .eq ∧
        (int 9007199254740993).compare? (int 9007199254740992) = some .gt := by
  decide

end Value

end FilterSql
