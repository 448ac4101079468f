import FilterSql.Sql.Select
import Mathlib.Tactic.Common

/-!
# Atoms of expressions

The columns, bound values and functions that an expression is made of, in the order of its text.
Facts about all of a kind of node are facts about atoms: `Expr.values` are the bound values,
`Expr.qualifiers` the tables named before columns.

The values bound by the pieces of an expression are its values in this order, in every dialect
(`bindings_pieces`), and likewise for the clauses of a statement (`Select.bindings_pieces`).
-/

namespace FilterSql.Sql

/-- A node of an expression without further expressions below it. -/
inductive Atom where
  | column (c : Column)
  | value (v : Value)
  | function (name : String)
  /-- All columns, of one table if it is said. -/
  | all (qualifier : Option String)

namespace Expr

mutual

/-- The atoms of an expression in the order of its text. -/
def atoms : Expr → List Atom
  | .column c => [.column c]
  | .value v => [.value v]
  | .compare left _ right => left.atoms ++ right.atoms
  | .call function args => .function function :: listAtoms args
  | .callAll function => [.function function]
  | .named e _ => e.atoms
  | .textAt c _ => [.column c]
  | .and es => listAtoms es
  | .or es => listAtoms es
  | .not e => e.atoms
  | .nested e => e.atoms
  | .oneOf e choices _ => e.atoms ++ listAtoms choices
  | .between e low high => e.atoms ++ low.atoms ++ high.atoms
  | .isNull e _ => e.atoms
  | .all qualifier => [.all qualifier]

/-- The atoms of expressions one after the other. -/
def listAtoms : List Expr → List Atom
  | [] => []
  | e :: es => e.atoms ++ listAtoms es

end

theorem listAtoms_eq (es : List Expr) : listAtoms es = es.flatMap atoms := by
  induction es with
  | nil => rfl
  | cons e es ih => rw [listAtoms, ih, List.flatMap_cons]

/-- Induction over expressions, where the expressions of a list come all at once. -/
@[induction_eliminator]
theorem induct {motive : Expr → Prop} (column : ∀ c, motive (.column c))
    (value : ∀ v, motive (.value v))
    (compare : ∀ left op right, motive left → motive right → motive (.compare left op right))
    (call : ∀ function args, (∀ e ∈ args, motive e) → motive (.call function args))
    (callAll : ∀ function, motive (.callAll function))
    (named : ∀ e label, motive e → motive (.named e label))
    (textAt : ∀ c keys, motive (.textAt c keys))
    (and : ∀ es, (∀ e ∈ es, motive e) → motive (.and es))
    (or : ∀ es, (∀ e ∈ es, motive e) → motive (.or es))
    (not : ∀ e, motive e → motive (.not e)) (nested : ∀ e, motive e → motive (.nested e))
    (oneOf : ∀ e choices negated, motive e → (∀ e ∈ choices, motive e) →
      motive (.oneOf e choices negated))
    (between : ∀ e low high, motive e → motive low → motive high → motive (.between e low high))
    (isNull : ∀ e negated, motive e → motive (.isNull e negated))
    (all : ∀ qualifier, motive (.all qualifier)) (e : Expr) : motive e :=
  @Expr.rec motive (fun es => ∀ e ∈ es, motive e) column value compare call callAll named textAt and
    or not nested oneOf between isNull all (fun _ h => absurd h List.not_mem_nil)
    (fun _ _ he hes e h => (List.mem_cons.1 h).elim (fun h => h ▸ he) (hes e)) e

end Expr

/-- A bound value. -/
def Atom.value? : Atom → Option Value
  | .value v => some v
  | _ => none

/-- The table before a column, which may be left out; none if the atom is no column. -/
def Atom.qualifier? : Atom → Option (Option String)
  | .column c => some c.qualifier
  | .all qualifier => some qualifier
  | _ => none

namespace Expr

/-- The bound values of an expression. -/
def values (e : Expr) : List Value := e.atoms.filterMap Atom.value?

/-- The tables before the columns of an expression. -/
def qualifiers (e : Expr) : List (Option String) := e.atoms.filterMap Atom.qualifier?

end Expr

/-! ## Values and bindings -/

@[simp] theorem bindings_nil : bindings [] = [] := rfl

@[simp] theorem bindings_append (ps qs : List Piece) :
    bindings (ps ++ qs) = bindings ps ++ bindings qs := List.filterMap_append

@[simp] theorem bindings_fixed (s : String) (ps : List Piece) :
    bindings (.fixed s :: ps) = bindings ps := rfl

@[simp] theorem bindings_name (s : String) (ps : List Piece) :
    bindings (.name s :: ps) = bindings ps := rfl

@[simp] theorem bindings_literal (s : String) (ps : List Piece) :
    bindings (.literal s :: ps) = bindings ps := rfl

@[simp] theorem bindings_bound (v : Value) (ps : List Piece) :
    bindings (.bound v :: ps) = v :: bindings ps := rfl

@[simp] theorem bindings_qualifierPieces (q : Option String) :
    bindings (qualifierPieces q) = [] := by
  cases q <;> rfl

@[simp] theorem Column.bindings_pieces (c : Column) : bindings c.pieces = [] := by
  simp [Column.pieces]

theorem bindings_arrows (keys : List String) : bindings (arrows keys) = [] := by
  fun_induction arrows keys with
  | case1 => rfl
  | case2 => rfl
  | case3 key keys _ ih => simpa using ih

@[simp] theorem bindings_extraction (d : Dialect) (column : List Piece) (keys : List String) :
    bindings (extraction d column keys) = bindings column := by
  cases d <;> simp [extraction, bindings_arrows]

namespace Expr

theorem listPieces_cons {d : Dialect} {separator : String} {e : Expr} {es : List Expr}
    (h : es ≠ []) :
    listPieces d separator (e :: es) =
      e.pieces d ++ .fixed separator :: listPieces d separator es := by
  cases es with
  | nil => exact absurd rfl h
  | cons e' es => rfl

theorem listPieces_append {d : Dialect} {separator : String} {es fs : List Expr} (he : es ≠ [])
    (hf : fs ≠ []) : listPieces d separator (es ++ fs) =
      listPieces d separator es ++ .fixed separator :: listPieces d separator fs := by
  induction es with
  | nil => exact absurd rfl he
  | cons e es ih =>
    by_cases hes : es = []
    · subst hes
      exact listPieces_cons hf
    · rw [List.cons_append, listPieces_cons (by simp [hes]), ih hes, listPieces_cons hes,
        List.append_assoc, List.cons_append]

/-- The text of a list depends on the texts of its expressions. -/
theorem listPieces_congr {d : Dialect} {separator : String} {es es' : List Expr}
    (h : es.map (pieces d) = es'.map (pieces d)) :
    listPieces d separator es = listPieces d separator es' := by
  induction es generalizing es' with
  | nil =>
    obtain rfl := List.map_eq_nil_iff.1 h.symm
    rfl
  | cons e es ih =>
    obtain ⟨e', es', rfl, he, hes⟩ := List.map_eq_cons_iff.1 h.symm
    by_cases hnil : es = []
    · subst hnil
      obtain rfl := List.map_eq_nil_iff.1 hes
      exact he.symm
    · have hnil' : es' ≠ [] := by
        rintro rfl
        exact hnil (List.map_eq_nil_iff.1 hes.symm)
      rw [listPieces_cons hnil, listPieces_cons hnil', ih hes.symm, he]

theorem bindings_listPieces_of {d : Dialect} {separator : String} {es : List Expr}
    (h : ∀ e ∈ es, bindings (e.pieces d) = e.values) :
    bindings (listPieces d separator es) = es.flatMap values := by
  induction es with
  | nil => rfl
  | cons e es ih =>
    have he := h e (by simp)
    have ih := ih fun e he => h e (by simp [he])
    rw [List.flatMap_cons, ← he, ← ih]
    rcases eq_or_ne es [] with rfl | hes
    · simp [listPieces]
    · simp [listPieces_cons hes]

theorem values_flatMap (es : List Expr) :
    (es.flatMap atoms).filterMap Atom.value? = es.flatMap values := List.filterMap_flatMap

theorem values_listAtoms (es : List Expr) :
    (listAtoms es).filterMap Atom.value? = es.flatMap values := by
  rw [listAtoms_eq, values_flatMap]

/-- In every dialect the pieces of an expression bind its values in their order. -/
theorem bindings_pieces (d : Dialect) (e : Expr) : bindings (e.pieces d) = e.values := by
  induction e with
  | column c => simp [pieces, values, atoms, Atom.value?]
  | value v => rfl
  | compare left op right hl hr => simp [pieces, hl, hr, values, atoms]
  | call function args ih =>
    simp [pieces, bindings_listPieces_of ih, values, atoms, List.filterMap_cons, Atom.value?,
      values_listAtoms]
  | callAll function => rfl
  | named e label ih => simp [pieces, ih, values, atoms]
  | textAt c keys => simp [pieces, values, atoms, Atom.value?]
  | and es ih => simp [pieces, bindings_listPieces_of ih, values, atoms, values_listAtoms]
  | or es ih => simp [pieces, bindings_listPieces_of ih, values, atoms, values_listAtoms]
  | not e ih => simp [pieces, ih, values, atoms]
  | nested e ih => simp [pieces, ih, values, atoms]
  | oneOf e choices negated he ih =>
    simp [pieces, he, bindings_listPieces_of ih, values, atoms, values_listAtoms]
  | between e low high he hl hh => simp [pieces, he, hl, hh, values, atoms]
  | isNull e negated ih => simp [pieces, ih, values, atoms]
  | all qualifier => simp [pieces, values, atoms, Atom.value?]

@[simp] theorem bindings_listPieces (d : Dialect) (separator : String) (es : List Expr) :
    bindings (listPieces d separator es) = es.flatMap values :=
  bindings_listPieces_of fun e _ => e.bindings_pieces d

end Expr

attribute [simp] Expr.bindings_pieces

/-! ## Statements -/

mutual

/-- The atoms of a statement in the order of its clauses. -/
def Select.atoms : Select → List Atom
  | ⟨columns, source, joins, condition, groupBy, orderBy, limit, offset⟩ =>
    columns.flatMap Expr.atoms ++ fromAtoms source ++ joins.flatMap (fun j => j.condition.atoms) ++
      condition.toList.flatMap Expr.atoms ++ groupBy.flatMap Expr.atoms ++
      orderBy.flatMap (fun o => o.expr.atoms) ++ limit.toList.flatMap Expr.atoms ++
      offset.toList.flatMap Expr.atoms

/-- The atoms of the FROM clause. -/
def fromAtoms : Option (Source Select) → List Atom
  | none => []
  | some s => sourceAtoms s

/-- The atoms of a source. -/
def sourceAtoms : Source Select → List Atom
  | .table _ _ => []
  | .query q _ => q.atoms

end

/-- The bound values of a statement. -/
def Select.values (s : Select) : List Value := s.atoms.filterMap Atom.value?

/-- The tables before the columns of a statement. -/
def Select.qualifiers (s : Select) : List (Option String) := s.atoms.filterMap Atom.qualifier?

@[simp] theorem Table.bindings_pieces (t : Table) : bindings t.pieces = [] := by
  simp [Table.pieces]

@[simp] theorem bindings_labelPieces (label : Option String) :
    bindings (labelPieces label) = [] := by
  cases label <;> rfl

@[simp] theorem JoinClause.bindings_pieces (d : Dialect) (j : JoinClause) :
    bindings (j.pieces d) = j.condition.values := by
  simp [JoinClause.pieces]

@[simp] theorem bindings_clausePieces (d : Dialect) (keyword : String) (e : Option Expr) :
    bindings (clausePieces d keyword e) = e.toList.flatMap Expr.values := by
  cases e <;> simp [clausePieces]

@[simp] theorem bindings_listClausePieces (d : Dialect) (keyword : String) (es : List Expr) :
    bindings (listClausePieces d keyword es) = es.flatMap Expr.values := by
  cases es with
  | nil => rfl
  | cons e es => simp only [listClausePieces, bindings_fixed, Expr.bindings_listPieces]

@[simp] theorem bindings_columnPieces (d : Dialect) (es : List Expr) :
    bindings (columnPieces d es) = es.flatMap Expr.values := by
  cases es with
  | nil => rfl
  | cons e es => simp only [columnPieces, Expr.bindings_listPieces]

@[simp] theorem OrderItem.bindings_pieces (d : Dialect) (o : OrderItem) :
    bindings (o.pieces d) = o.expr.values := by
  rcases o with ⟨e, _ | _ | _⟩ <;> simp [OrderItem.pieces]

theorem bindings_orderPieces (d : Dialect) (os : List OrderItem) :
    bindings (orderPieces d os) = os.flatMap fun o => o.expr.values := by
  fun_induction orderPieces d os with
  | case1 => rfl
  | case2 o => simp
  | case3 o os _ ih => simp [ih]

@[simp] theorem bindings_orderClausePieces (d : Dialect) (os : List OrderItem) :
    bindings (orderClausePieces d os) = os.flatMap fun o => o.expr.values := by
  cases os with
  | nil => rfl
  | cons o os => simp only [orderClausePieces, bindings_fixed, bindings_orderPieces]

theorem bindings_flatMap {α : Type} (f : α → List Piece) (xs : List α) :
    bindings (xs.flatMap f) = xs.flatMap fun x => bindings (f x) := by
  simp [bindings, List.filterMap_flatMap]

theorem values_flatMap_of {α : Type} (f : α → Expr) (xs : List α) :
    (xs.flatMap fun x => (f x).atoms).filterMap Atom.value? = xs.flatMap fun x => (f x).values :=
  List.filterMap_flatMap

mutual

/-- In every dialect the pieces of a statement bind its values in their order. -/
theorem Select.bindings_pieces (d : Dialect) : ∀ s : Select, bindings (s.pieces d) = s.values
  | ⟨columns, source, joins, condition, groupBy, orderBy, limit, offset⟩ => by
    simp [Select.pieces, Select.values, Select.atoms, bindings_fromPieces d source,
      bindings_flatMap, List.filterMap_append, Expr.values_flatMap, values_flatMap_of]

theorem bindings_fromPieces (d : Dialect) : ∀ source : Option (Source Select),
    bindings (fromPieces d source) = (fromAtoms source).filterMap Atom.value?
  | none => rfl
  | some s => by simp [fromPieces, fromAtoms, bindings_sourcePieces d s]

theorem bindings_sourcePieces (d : Dialect) : ∀ s : Source Select,
    bindings (sourcePieces d s) = (sourceAtoms s).filterMap Atom.value?
  | .table t label => by simp [sourcePieces, sourceAtoms]
  | .query q label => by
    simp only [sourcePieces, sourceAtoms, bindings_fixed, bindings_append, bindings_labelPieces,
      List.append_nil]
    exact q.bindings_pieces d

end

end FilterSql.Sql
