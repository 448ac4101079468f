import FilterSql.Proofs.Sql.Atoms

/-!
# Truth of conditions

A condition about a row is true, false, or unknown because a value is missing.  `Truth` has the
connectives of SQL over these three, and `Expr.truth` evaluates an expression by them: conjunctions,
disjunctions, negations and parentheses are followed, and anything else is a comparison, whose truth
is given.
-/

namespace FilterSql

/-- The truth of a condition. -/
inductive Truth where
  | no
  | unknown
  | yes
  deriving DecidableEq, Repr

namespace Truth

/-- Negation, which leaves the unknown unknown. -/
def not : Truth → Truth
  | no => yes
  | unknown => unknown
  | yes => no

/-- Conjunction: false as soon as one side is. -/
def and : Truth → Truth → Truth
  | no, _ | _, no => no
  | yes, yes => yes
  | _, _ => unknown

/-- Disjunction: true as soon as one side is. -/
def or : Truth → Truth → Truth
  | yes, _ | _, yes => yes
  | no, no => no
  | _, _ => unknown

@[simp] theorem and_yes (a : Truth) : a.and yes = a := by cases a <;> rfl

@[simp] theorem yes_and (a : Truth) : yes.and a = a := by cases a <;> rfl

@[simp] theorem or_no (a : Truth) : a.or no = a := by cases a <;> rfl

@[simp] theorem no_or (a : Truth) : no.or a = a := by cases a <;> rfl

theorem and_assoc (a b c : Truth) : (a.and b).and c = a.and (b.and c) := by
  cases a <;> cases b <;> cases c <;> rfl

theorem or_assoc (a b c : Truth) : (a.or b).or c = a.or (b.or c) := by
  cases a <;> cases b <;> cases c <;> rfl

/-- The conjunction of all. -/
def all (ts : List Truth) : Truth := ts.foldr and yes

/-- The disjunction of all. -/
def any (ts : List Truth) : Truth := ts.foldr or no

@[simp] theorem all_cons (t : Truth) (ts : List Truth) : all (t :: ts) = t.and (all ts) := rfl

@[simp] theorem any_cons (t : Truth) (ts : List Truth) : any (t :: ts) = t.or (any ts) := rfl

theorem all_append (ts us : List Truth) : all (ts ++ us) = (all ts).and (all us) := by
  induction ts with
  | nil => simp [all]
  | cons t ts ih => simp [ih, and_assoc]

/-- The conjunction of what is said; nothing if nothing is said. -/
def all? : List Truth → Option Truth
  | [] => none
  | ts => some (all ts)

/-- The disjunction of what is said; nothing if nothing is said. -/
def any? : List Truth → Option Truth
  | [] => none
  | ts => some (any ts)

@[simp] theorem all?_nil : all? [] = none := rfl

@[simp] theorem all?_toList (t : Option Truth) : all? t.toList = t := by
  cases t <;> simp [all?, all]

/-- To say something more is to say both; to say nothing more is to say the same. -/
theorem all?_append (ts us : List Truth) :
    all? (ts ++ us) = Option.merge Truth.and (all? ts) (all? us) := by
  cases ts with
  | nil => simp
  | cons t ts =>
    cases us with
    | nil => simp [all?]
    | cons u us => simp only [List.cons_append, all?, Option.merge, ← all_append]

end Truth

namespace Sql

namespace Expr

mutual

/-- The truth of an expression, given that of the comparisons in it. -/
def truth (τ : Expr → Truth) : Expr → Truth
  | .and es => Truth.all (truths τ es)
  | .or es => Truth.any (truths τ es)
  | .not e => (e.truth τ).not
  | .nested e => e.truth τ
  | e => τ e

/-- The truths of expressions one after the other. -/
def truths (τ : Expr → Truth) : List Expr → List Truth
  | [] => []
  | e :: es => e.truth τ :: truths τ es

end

variable {τ : Expr → Truth}

theorem truths_eq (es : List Expr) : truths τ es = es.map (truth τ) := by
  induction es with
  | nil => rfl
  | cons e es ih => rw [truths, ih, List.map_cons]

@[simp] theorem truth_and (es : List Expr) : (and es).truth τ = Truth.all (es.map (truth τ)) := by
  rw [truth, truths_eq]

@[simp] theorem truth_or (es : List Expr) : (or es).truth τ = Truth.any (es.map (truth τ)) := by
  rw [truth, truths_eq]

@[simp] theorem truth_not (e : Expr) : (not e).truth τ = (e.truth τ).not := by rw [truth]

@[simp] theorem truth_nested (e : Expr) : (nested e).truth τ = e.truth τ := by rw [truth]

/-- The conjunction of expressions says what they all say. -/
theorem truth_conjunction (es : List Expr) :
    (conjunction es).map (truth τ) = Truth.all? (es.map (truth τ)) := by
  match es with
  | [] => rfl
  | [e] => simp [conjunction, Truth.all?, Truth.all]
  | e :: f :: es => simp [conjunction, Truth.all?]

end Expr

end Sql

end FilterSql
