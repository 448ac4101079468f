import FilterSql.Error
import Mathlib.Data.List.Forall2

/-!
# Outcomes of steps

When a sequence of steps that may fail comes to a result, what it can fail with (`FailsOnly`), and
when two such sequences come to the same end (`SameUnless`, `Alike`).
-/

namespace FilterSql

section

variable {ε α β : Type}

theorem bind_eq_ok {x : Except ε α} {f : α → Except ε β} {b : β} :
    (x >>= f) = .ok b ↔ ∃ a, x = .ok a ∧ f a = .ok b := by
  cases x <;> simp [bind, Except.bind]

theorem map_eq_ok {x : Except ε α} {f : α → β} {b : β} :
    x.map f = .ok b ↔ ∃ a, x = .ok a ∧ f a = b := by
  cases x <;> simp [Except.map]

theorem map_eq_error {x : Except ε α} {f : α → β} {e : ε} : x.map f = .error e ↔ x = .error e := by
  cases x <;> simp [Except.map]

theorem pure_eq_ok {a b : α} : (pure a : Except ε α) = .ok b ↔ a = b := by
  simp [pure, Except.pure]

theorem mapM_eq_ok {f : α → Except ε β} {xs : List α} {ys : List β} :
    xs.mapM f = .ok ys ↔ List.Forall₂ (fun x y => f x = .ok y) xs ys := by
  induction xs generalizing ys with
  | nil =>
    rw [List.mapM_nil, pure_eq_ok, List.forall₂_nil_left_iff, eq_comm]
  | cons x xs ih =>
    simp only [List.mapM_cons, bind_eq_ok, pure_eq_ok, ih, List.forall₂_cons_left_iff]
    grind

theorem mapM_eq_some_iff {f : α → Option β} {xs : List α} {ys : List β} :
    xs.mapM f = some ys ↔ List.Forall₂ (fun x y => f x = some y) xs ys := by
  induction xs generalizing ys with
  | nil =>
    rw [List.mapM_nil, Option.pure_def, Option.some.injEq, List.forall₂_nil_left_iff, eq_comm]
  | cons x xs ih =>
    simp only [List.mapM_cons, Option.bind_eq_bind, Option.bind_eq_some_iff, Option.pure_def,
      Option.some.injEq, ih, List.forall₂_cons_left_iff]
    grind

theorem mapM_eq_some {f : α → Option β} {g : α → β} {xs : List α}
    (h : ∀ x ∈ xs, f x = some (g x)) : xs.mapM f = some (xs.map g) := by
  rw [mapM_eq_some_iff, List.forall₂_map_right_iff, List.forall₂_same]
  exact h

theorem exists_of_mem_mapM {f : α → Option β} {xs : List α} {ys : List β}
    (h : xs.mapM f = some ys) {y : β} (hy : y ∈ ys) : ∃ x ∈ xs, f x = some y := by
  obtain ⟨hlength, hget⟩ := List.forall₂_iff_get.1 (mapM_eq_some_iff.1 h)
  obtain ⟨i, hi, rfl⟩ := List.getElem_of_mem hy
  exact ⟨_, List.getElem_mem (hlength ▸ hi), hget i (hlength ▸ hi) hi⟩

theorem exists_mapM {f : α → Except ε β} {xs : List α} (h : ∀ x ∈ xs, ∃ y, f x = .ok y) :
    ∃ ys, xs.mapM f = .ok ys := by
  induction xs with
  | nil => exact ⟨[], rfl⟩
  | cons x xs ih =>
    obtain ⟨y, hy⟩ := h x List.mem_cons_self
    obtain ⟨ys, hys⟩ := ih fun x hx => h x (List.mem_cons_of_mem _ hx)
    exact ⟨y :: ys, by rw [List.mapM_cons, hy, hys]; rfl⟩

/-- Steps fail with the error of the first that fails. -/
theorem mapM_eq_error {f : α → Except ε β} {xs : List α} {e : ε} : xs.mapM f = .error e ↔
    ∃ before x after, xs = before ++ x :: after ∧ f x = .error e ∧
      ∀ y ∈ before, ∃ b, f y = .ok b := by
  constructor
  · intro h
    induction xs with
    | nil => cases h
    | cons x xs ih =>
      rw [List.mapM_cons] at h
      cases hx : f x with
      | error e' =>
        rw [hx] at h
        obtain rfl := Except.error.inj h
        exact ⟨[], x, xs, rfl, hx, by simp⟩
      | ok b =>
        cases hxs : xs.mapM f with
        | ok bs =>
          rw [hx, hxs] at h
          cases h
        | error e' =>
          rw [hx, hxs] at h
          obtain rfl := Except.error.inj h
          obtain ⟨before, y, after, rfl, hy, succeed⟩ := ih hxs
          exact ⟨x :: before, y, after, rfl, hy, List.forall_mem_cons.2 ⟨⟨b, hx⟩, succeed⟩⟩
  · rintro ⟨before, x, after, rfl, hx, succeed⟩
    obtain ⟨bs, hbs⟩ := exists_mapM succeed
    rw [List.mapM_append, hbs, List.mapM_cons, hx]
    rfl

theorem exists_mapM_eq_error {f : α → Except ε β} {xs : List α} :
    (∃ e, xs.mapM f = .error e) ↔ ∃ x ∈ xs, ∃ e, f x = .error e := by
  induction xs with
  | nil => simp [pure, Except.pure]
  | cons x xs ih =>
    rw [List.mapM_cons, List.exists_mem_cons_iff, ← ih]
    cases f x with
    | error e => simp [bind, Except.bind]
    | ok b => cases xs.mapM f <;> simp [bind, Except.bind, pure, Except.pure]

theorem mem_mapM_iff {f : α → Except ε β} {xs : List α} {ys : List β} (h : xs.mapM f = .ok ys)
    {y : β} : y ∈ ys ↔ ∃ x ∈ xs, f x = .ok y := by
  induction xs generalizing ys with
  | nil =>
    obtain rfl := pure_eq_ok.1 h
    simp
  | cons x xs ih =>
    rw [List.mapM_cons] at h
    obtain ⟨b, hb, h⟩ := bind_eq_ok.1 h
    obtain ⟨bs, hbs, h⟩ := bind_eq_ok.1 h
    obtain rfl := pure_eq_ok.1 h
    rw [List.mem_cons, ih hbs, List.exists_mem_cons_iff, hb, Except.ok.injEq, eq_comm]

theorem mapM_congr {f f' : α → Except ε β} {xs : List α} (h : ∀ x ∈ xs, f x = f' x) :
    xs.mapM f = xs.mapM f' := by
  induction xs with
  | nil => rfl
  | cons x xs ih =>
    rw [List.mapM_cons, List.mapM_cons, h x List.mem_cons_self,
      ih fun x hx => h x (List.mem_cons_of_mem _ hx)]

/-- The results of two steps, those of the first before those of the second. -/
def both (x y : Except ε (List α)) : Except ε (List α) := do
  let here ← x
  let more ← y
  return here ++ more

theorem both_eq_ok {x y : Except ε (List α)} {zs : List α} :
    both x y = .ok zs ↔ ∃ here more, x = .ok here ∧ y = .ok more ∧ here ++ more = zs := by
  simp only [both, bind_eq_ok, pure_eq_ok]
  grind

theorem nil_both (x : Except ε (List α)) : both (.ok []) x = x := by
  cases x <;> rfl

theorem both_nil (x : Except ε (List α)) : both x (.ok []) = x := by
  cases x with
  | ok here => exact congrArg Except.ok (List.append_nil here)
  | error e => rfl

theorem both_assoc (x y z : Except ε (List α)) : both (both x y) z = both x (both y z) := by
  cases x with
  | error e => rfl
  | ok here =>
    cases y with
    | error e => rfl
    | ok more =>
      cases z with
      | error e => rfl
      | ok rest => exact congrArg Except.ok (List.append_assoc here more rest)

/-- Every error of the outcome satisfies `P`. -/
def FailsOnly (P : ε → Prop) (x : Except ε α) : Prop := ∀ e, x = .error e → P e

namespace FailsOnly

variable {P : ε → Prop} {x : Except ε α}

theorem ok (a : α) : FailsOnly P (.ok a : Except ε α) := by
  intro e he
  cases he

theorem error {e : ε} (h : P e) : FailsOnly P (.error e : Except ε α) := by
  rintro _ ⟨⟩
  exact h

/-- The second step may rely on the result of the first. -/
theorem bind {f : α → Except ε β} (hx : FailsOnly P x) (hf : ∀ a, x = .ok a → FailsOnly P (f a)) :
    FailsOnly P (x >>= f) := by
  cases x with
  | ok a => exact hf a rfl
  | error e => exact .error (hx e rfl)

theorem map {f : α → β} (hx : FailsOnly P x) : FailsOnly P (x.map f) := by
  cases x with
  | ok a => exact .ok (f a)
  | error e => exact .error (hx e rfl)

end FailsOnly

/-- The outcomes are the same, unless the first is an error that satisfies `P`. -/
inductive SameUnless (P : ε → Prop) : Except ε α → Except ε α → Prop
  | same (x : Except ε α) : SameUnless P x x
  | error {e : ε} (h : P e) (y : Except ε α) : SameUnless P (.error e) y

namespace SameUnless

variable {P : ε → Prop} {x y : Except ε α}

/-- The second steps are taken after the same result. -/
theorem bind {f f' : α → Except ε β} (h : SameUnless P x y)
    (hf : ∀ a, x = .ok a → SameUnless P (f a) (f' a)) : SameUnless P (x >>= f) (y >>= f') := by
  cases h with
  | same x =>
    cases x with
    | ok a => exact hf a rfl
    | error e => exact .same _
  | error h y => exact .error h _

theorem map (h : SameUnless P x y) (f : α → β) : SameUnless P (x.map f) (y.map f) := by
  cases h with
  | same x => exact .same _
  | error h y => exact .error h _

theorem eq_ok (h : SameUnless P x y) {a : α} (hx : x = .ok a) : y = .ok a := by
  cases h with
  | same x => exact hx
  | error h y => cases hx

theorem eq_error (h : SameUnless P x y) {e : ε} (hx : x = .error e) : P e ∨ y = .error e := by
  cases h with
  | same x => exact .inr hx
  | error h y =>
    cases hx
    exact .inl h

end SameUnless

/-- Both fail, with the same error, or both succeed, with related results. -/
inductive Alike (R : α → β → Prop) : Except ε α → Except ε β → Prop
  | ok {a : α} {b : β} (h : R a b) : Alike R (.ok a) (.ok b)
  | error (e : ε) : Alike R (.error e) (.error e)

namespace Alike

variable {γ δ : Type} {R : α → β → Prop} {S : γ → δ → Prop} {x : Except ε α} {y : Except ε β}

theorem refl {R : α → α → Prop} (h : ∀ a, R a a) (x : Except ε α) : Alike R x x := by
  cases x with
  | ok a => exact .ok (h a)
  | error e => exact .error e

theorem bind {f : α → Except ε γ} {f' : β → Except ε δ} (h : Alike R x y)
    (hf : ∀ a b, R a b → Alike S (f a) (f' b)) : Alike S (x >>= f) (y >>= f') := by
  cases h with
  | ok h => exact hf _ _ h
  | error e => exact .error e

/-- Steps after the same step, which may rely on its result. -/
theorem bind_same {x : Except ε α} {f : α → Except ε γ} {f' : α → Except ε δ}
    (hf : ∀ a, x = .ok a → Alike S (f a) (f' a)) : Alike S (x >>= f) (x >>= f') := by
  cases x with
  | ok a => exact hf a rfl
  | error e => exact .error e

theorem both {R : List α → List β → Prop} {x y : Except ε (List α)} {x' y' : Except ε (List β)}
    (happend : ∀ {as bs as' bs'}, R as as' → R bs bs' → R (as ++ bs) (as' ++ bs'))
    (hx : Alike R x x') (hy : Alike R y y') : Alike R (both x y) (both x' y') :=
  hx.bind fun _ _ here => hy.bind fun _ _ more => .ok (happend here more)

theorem map {f : α → γ} {f' : β → δ} (h : Alike R x y) (hf : ∀ a b, R a b → S (f a) (f' b)) :
    Alike S (x.map f) (y.map f') := by
  cases h with
  | ok h => exact .ok (hf _ _ h)
  | error e => exact .error e

/-- Outcomes that are like the same one are alike. -/
theorem through {R : α → α → Prop} {x y z : Except ε α} (hR : ∀ a b c, R a b → R a c → R b c)
    (hy : Alike R x y) (hz : Alike R x z) : Alike R y z := by
  cases hy with
  | ok h =>
    cases hz with
    | ok h' => exact .ok (hR _ _ _ h h')
  | error e =>
    cases hz with
    | error e => exact .error e

/-- Related results are those of the steps. -/
theorem exact (h : Alike R x y) : Alike (fun a b => x = .ok a ∧ y = .ok b ∧ R a b) x y := by
  cases h with
  | ok h => exact .ok ⟨rfl, rfl, h⟩
  | error e => exact .error e

theorem related (h : Alike R x y) {a : α} {b : β} (hx : x = .ok a) (hy : y = .ok b) : R a b := by
  subst hx hy
  cases h with
  | ok h => exact h

end Alike

end

theorem ofSchema_eq_ok {α : Type} {x : Except SchemaError α} {a : α} :
    CompileError.ofSchema x = .ok a ↔ x = .ok a := by
  cases x <;> simp [CompileError.ofSchema, Except.mapError]

theorem Registry.entity_eq_ok {g : Registry} {name : String} {e : Entity} :
    g.entity name = .ok e ↔ g.entity? name = some e := by
  unfold Registry.entity
  split <;> simp_all

end FilterSql
