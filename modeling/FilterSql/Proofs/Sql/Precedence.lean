import FilterSql.Proofs.Sql.Truth
import FilterSql.Proofs.Sql.Words

/-!
# Reading conditions by precedence

`Formula.ofText?` reads the text of a condition as a database does: negation binds tighter than
conjunction, conjunction tighter than disjunction, parentheses group, and `x between a and b` is one
comparison, as is everything else that is no connective.

It goes in two steps.  `items` tells comparisons, connectives and parentheses apart in the words of
the text; `Formula.ofItems?` groups them.  The second step does not look at the comparisons
(`Formula.ofItems?_map`).
-/

namespace FilterSql.Sql

/-! ## Formulas -/

/-- A Boolean expression over comparisons of type `α`. -/
inductive Formula (α : Type) where
  | comparison (a : α)
  | not (f : Formula α)
  | and (f g : Formula α)
  | or (f g : Formula α)
  deriving DecidableEq, Repr

namespace Formula

variable {α β : Type}

/-- The truth of a formula, given that of its comparisons. -/
def truth (τ : α → Truth) : Formula α → Truth
  | comparison a => τ a
  | not f => (f.truth τ).not
  | and f g => (f.truth τ).and (g.truth τ)
  | or f g => (f.truth τ).or (g.truth τ)

/-- A formula with other comparisons. -/
def map (φ : α → β) : Formula α → Formula β
  | comparison a => comparison (φ a)
  | not f => not (f.map φ)
  | and f g => and (f.map φ) (g.map φ)
  | or f g => or (f.map φ) (g.map φ)

/-- A formula after those that a connective has put together so far. -/
def join (connect : Formula α → Formula α → Formula α) : Option (Formula α) → Formula α → Formula α
  | none, f => f
  | some g, f => connect g f

/-- Negations before a formula. -/
def negate (f : Formula α) : Nat → Formula α
  | 0 => f
  | n + 1 => not (f.negate n)

theorem truth_join_and (τ : α → Truth) (before : Option (Formula α)) (f : Formula α) :
    (join .and before f).truth τ = ((before.map (truth τ)).getD .yes).and (f.truth τ) := by
  cases before <;> simp [join, truth]

theorem truth_join_or (τ : α → Truth) (before : Option (Formula α)) (f : Formula α) :
    (join .or before f).truth τ = ((before.map (truth τ)).getD .no).or (f.truth τ) := by
  cases before <;> simp [join, truth]

theorem map_join (φ : α → β) {connect : Formula α → Formula α → Formula α}
    {connect' : Formula β → Formula β → Formula β}
    (h : ∀ f g, (connect f g).map φ = connect' (f.map φ) (g.map φ)) (before : Option (Formula α))
    (f : Formula α) :
    (join connect before f).map φ = join connect' (before.map (map φ)) (f.map φ) := by
  cases before with
  | none => rfl
  | some g => exact h g f

theorem map_negate (φ : α → β) (f : Formula α) (n : Nat) :
    (f.negate n).map φ = (f.map φ).negate n := by
  induction n with
  | zero => rfl
  | succ n ih => rw [negate, negate, map, ih]

end Formula

/-! ## Comparisons, connectives and parentheses -/

/-- A part of the text of a condition. -/
inductive Item (α : Type) where
  | comparison (a : α)
  | and
  | or
  | not
  | opening
  | closing
  deriving DecidableEq, Repr

/-- An item with another comparison. -/
def Item.map {α β : Type} (φ : α → β) : Item α → Item β
  | comparison a => comparison (φ a)
  | and => and
  | or => or
  | not => not
  | opening => opening
  | closing => closing

/-- What a word is for. -/
inductive Role where
  | opening
  | closing
  | and
  | or
  | not
  | between
  | other
  deriving DecidableEq, Repr

/-- The role of a word. -/
def Word.role : Word → Role
  | .mark '(' => .opening
  | .mark ')' => .closing
  | .run ['a', 'n', 'd'] => .and
  | .run ['o', 'r'] => .or
  | .run ['n', 'o', 't'] => .not
  | .run ['b', 'e', 't', 'w', 'e', 'e', 'n'] => .between
  | _ => .other

mutual

/-- The items of words where a comparison may begin. -/
def items : List Word → List (Item (List Word))
  | [] => []
  | w :: ws =>
    match w.role with
    | .opening => .opening :: items ws
    | .closing => .closing :: items ws
    | .and => .and :: items ws
    | .or => .or :: items ws
    | .not => .not :: items ws
    | .between | .other => itemsWithin [w] 0 false ws

/-- The items of words inside a comparison: `before` are its words so far, `depth` counts the
parentheses that it has open, and `range` says whether it waits for the second bound of a range.  A
connective or a closing parenthesis ends it, unless it is inside parentheses or the `and` between
two bounds. -/
def itemsWithin (before : List Word) (depth : Nat) (range : Bool) :
    List Word → List (Item (List Word))
  | [] => [.comparison before]
  | w :: ws =>
    match w.role, depth, range with
    | .opening, depth, range => itemsWithin (before ++ [w]) (depth + 1) range ws
    | .closing, depth + 1, range => itemsWithin (before ++ [w]) depth range ws
    | .between, 0, _ => itemsWithin (before ++ [w]) 0 true ws
    | .and, 0, true => itemsWithin (before ++ [w]) 0 false ws
    | .closing, 0, _ => .comparison before :: .closing :: items ws
    | .and, 0, false => .comparison before :: .and :: items ws
    | .or, 0, _ => .comparison before :: .or :: items ws
    | _, depth, range => itemsWithin (before ++ [w]) depth range ws

end

/-! ## Precedence -/

/-- A condition in parentheses that is read up to a factor: the arms of its disjunction so far, the
factors of the arm so far, and the negations before the factor. -/
structure Level (α : Type) where
  arms : Option (Formula α) := none
  arm : Option (Formula α) := none
  negations : Nat := 0

namespace Level

variable {α β : Type}

/-- The arm with one more factor. -/
def extend (l : Level α) (f : Formula α) : Formula α := .join .and l.arm (f.negate l.negations)

/-- A level with other comparisons. -/
def map (φ : α → β) (l : Level α) : Level β :=
  ⟨l.arms.map (Formula.map φ), l.arm.map (Formula.map φ), l.negations⟩

theorem map_extend (φ : α → β) (l : Level α) (f : Formula α) :
    (l.extend f).map φ = (l.map φ).extend (f.map φ) := by
  rw [extend, Formula.map_join φ fun _ _ => rfl, Formula.map_negate]
  rfl

end Level

section Reading

variable {α β : Type}

mutual

/-- Reads on where a factor has to begin; `outer` are the conditions around, innermost first. -/
def readFactor (l : Level α) (outer : List (Level α)) : List (Item α) → Option (Formula α)
  | .comparison a :: rest => readOn l.arms (l.extend (.comparison a)) outer rest
  | .not :: rest => readFactor { l with negations := l.negations + 1 } outer rest
  | .opening :: rest => readFactor {} (l :: outer) rest
  | _ => none

/-- Reads on after a factor, with the arm up to it. -/
def readOn (arms : Option (Formula α)) (arm : Formula α) (outer : List (Level α)) :
    List (Item α) → Option (Formula α)
  | [] => if outer.isEmpty then some (.join .or arms arm) else none
  | .and :: rest => readFactor ⟨arms, some arm, 0⟩ outer rest
  | .or :: rest => readFactor ⟨some (.join .or arms arm), none, 0⟩ outer rest
  | .closing :: rest =>
    match outer with
    | l :: outer => readOn l.arms (l.extend (.join .or arms arm)) outer rest
    | [] => none
  | _ => none

end

/-- The formula of items; none if they are no condition. -/
def Formula.ofItems? (is : List (Item α)) : Option (Formula α) := readFactor {} [] is

example : Formula.ofItems? [.comparison 1, .or, .not, .comparison 2, .and, .comparison 3] =
    some (.or (.comparison 1) (.and (.not (.comparison 2)) (.comparison 3))) := rfl

/-- The formula of the text of a condition, whose comparisons are the words that they are written
with; none if the text is no condition. -/
def Formula.ofText? (d : Dialect) (text : String) : Option (Formula (List Word)) := do
  let ts ← lex d text.toList
  ofItems? (items (tokenWords ts))

mutual

theorem readFactor_map (φ : α → β) (l : Level α) (outer : List (Level α)) :
    ∀ is : List (Item α), readFactor (l.map φ) (outer.map (Level.map φ)) (is.map (Item.map φ)) =
      (readFactor l outer is).map (Formula.map φ)
  | [] | .and :: _ | .or :: _ | .closing :: _ => rfl
  | .comparison a :: is => by
    have step := readOn_map φ l.arms (l.extend (.comparison a)) outer is
    rw [Level.map_extend] at step
    exact step
  | .not :: is => readFactor_map φ { l with negations := l.negations + 1 } outer is
  | .opening :: is => readFactor_map φ {} (l :: outer) is

theorem readOn_map (φ : α → β) (arms : Option (Formula α)) (arm : Formula α)
    (outer : List (Level α)) : ∀ is : List (Item α),
      readOn (arms.map (Formula.map φ)) (arm.map φ) (outer.map (Level.map φ))
        (is.map (Item.map φ)) = (readOn arms arm outer is).map (Formula.map φ)
  | [] => by
    have disjunction : (Formula.join .or arms arm).map φ =
        .join .or (arms.map (Formula.map φ)) (arm.map φ) :=
      Formula.map_join φ (fun _ _ => rfl) arms arm
    cases outer with
    | nil => simp [readOn, disjunction]
    | cons l outer => rfl
  | .comparison _ :: _ | .not :: _ | .opening :: _ => rfl
  | .and :: is => readFactor_map φ ⟨arms, some arm, 0⟩ outer is
  | .or :: is => by
    have step := readFactor_map φ ⟨some (.join .or arms arm), none, 0⟩ outer is
    rw [Level.map, Option.map_some, Formula.map_join φ fun _ _ => rfl] at step
    exact step
  | .closing :: is => by
    cases outer with
    | nil => rfl
    | cons l outer =>
      have step := readOn_map φ l.arms (l.extend (.join .or arms arm)) outer is
      rw [Level.map_extend, Formula.map_join φ fun _ _ => rfl] at step
      exact step

end

/-- What items group to does not depend on what the comparisons are. -/
theorem Formula.ofItems?_map (φ : α → β) (is : List (Item α)) :
    ofItems? (is.map (Item.map φ)) = (ofItems? is).map (map φ) := readFactor_map φ {} [] is

end Reading

end FilterSql.Sql
