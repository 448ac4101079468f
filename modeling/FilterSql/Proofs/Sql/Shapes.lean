import FilterSql.Proofs.Sql.Atoms

/-!
# Shapes of statements

The shape of an expression are its pieces without the bound values (`Expr.shape`).  The text of a
statement and the number of its values do not depend on more (`sameText_statementOf`), and the shape
of an expression follows from those of its parts.
-/

namespace FilterSql.Sql

/-- The piece without its value. -/
def Piece.unbound : Piece → Piece
  | .bound _ => .bound .null
  | p => p

@[simp] theorem Piece.unbound_fixed (s : String) : Piece.unbound (.fixed s) = .fixed s := rfl

@[simp] theorem Piece.unbound_bound (v : Value) : Piece.unbound (.bound v) = .bound .null := rfl

variable {d : Dialect}

theorem assemble_unbound (ps : List Piece) (i : Nat) :
    assemble d i (ps.map Piece.unbound) = assemble d i ps := by
  induction ps generalizing i with
  | nil => rfl
  | cons p ps ih => cases p <;> simp only [List.map_cons, Piece.unbound, assemble, ih]

theorem length_bindings_unbound (ps : List Piece) :
    (bindings (ps.map Piece.unbound)).length = (bindings ps).length := by
  induction ps with
  | nil => rfl
  | cons p ps ih => cases p <;> simp [Piece.unbound, ih]

/-- The statements have the same text, and bind equally many values. -/
structure Statement.SameText (st st' : Statement) : Prop where
  text : st.text = st'.text
  length : st.bindings.length = st'.bindings.length

/-- Pieces that differ in their values have the same text, and equally many values. -/
theorem sameText_statementOf {ps qs : List Piece}
    (h : ps.map Piece.unbound = qs.map Piece.unbound) :
    (statementOf d ps).SameText (statementOf d qs) where
  text := congrArg String.ofList (by rw [← assemble_unbound ps, h, assemble_unbound])
  length := by
    show (bindings ps).length = (bindings qs).length
    rw [← length_bindings_unbound ps, h, length_bindings_unbound]

/-! ## Expressions -/

namespace Expr

/-- The pieces of an expression without the values. -/
def shape (d : Dialect) (e : Expr) : List Piece := (e.pieces d).map Piece.unbound

variable {e e' left right low high : Expr} {es es' : List Expr}

@[simp] theorem shape_compare (op : Comparison) : shape d (.compare left op right) =
    left.shape d ++ .fixed (op.text d) :: right.shape d := by
  simp [shape, pieces]

@[simp] theorem shape_isNull (negated : Bool) : shape d (.isNull e negated) =
    e.shape d ++ [.fixed (if negated then " is not null" else " is null")] := by
  simp [shape, pieces]

@[simp] theorem shape_not : shape d (.not e) = .fixed "not (" :: (e.shape d ++ [.fixed ")"]) := by
  simp [shape, pieces]

@[simp] theorem shape_nested : shape d (.nested e) = .fixed "(" :: (e.shape d ++ [.fixed ")"]) := by
  simp [shape, pieces]

@[simp] theorem shape_between : shape d (.between e low high) = e.shape d ++
    .fixed " between " :: (low.shape d ++ .fixed " and " :: high.shape d) := by
  simp [shape, pieces]

theorem unbound_listPieces (separator : String) (es : List Expr) :
    (listPieces d separator es).map Piece.unbound =
      [Piece.fixed separator].intercalate (es.map (shape d)) := by
  induction es with
  | nil => rfl
  | cons e es ih =>
    cases es with
    | nil => simp [listPieces, shape]
    | cons f es =>
      rw [listPieces, List.map_append, List.map_cons, ih]
      · simp [shape, List.intercalate]
      · simp

@[simp] theorem shape_and : shape d (.and es) =
    [Piece.fixed " and "].intercalate (es.map (shape d)) := unbound_listPieces " and " es

@[simp] theorem shape_or : shape d (.or es) =
    [Piece.fixed " or "].intercalate (es.map (shape d)) := unbound_listPieces " or " es

@[simp] theorem shape_oneOf (negated : Bool) : shape d (.oneOf e es negated) = e.shape d ++
    .fixed (if negated then " not in (" else " in (") ::
      ([Piece.fixed ", "].intercalate (es.map (shape d)) ++ [.fixed ")"]) := by
  simp [shape, pieces, unbound_listPieces]

/-- The expressions differ in bound values only. -/
def SameShape (d : Dialect) (e e' : Expr) : Prop := e.shape d = e'.shape d

/-- The expressions of the lists differ in bound values only. -/
def SameShapes (d : Dialect) (es es' : List Expr) : Prop := es.map (shape d) = es'.map (shape d)

namespace SameShapes

variable {fs fs' : List Expr}

theorem append (he : SameShapes d es es') (hf : SameShapes d fs fs') :
    SameShapes d (es ++ fs) (es' ++ fs') := by
  rw [SameShapes, List.map_append, List.map_append, he, hf]

theorem nested (h : SameShapes d es es') : SameShapes d (es.map .nested) (es'.map .nested) := by
  have wrapped (es : List Expr) : (es.map Expr.nested).map (shape d) =
      (es.map (shape d)).map fun ps => .fixed "(" :: (ps ++ [.fixed ")"]) := by
    simp
  rw [SameShapes, wrapped, wrapped, h]

theorem and (h : SameShapes d es es') : SameShape d (.and es) (.and es') := by
  rw [SameShape, shape_and, shape_and, h]

theorem or (h : SameShapes d es es') : SameShape d (.or es) (.or es') := by
  rw [SameShape, shape_or, shape_or, h]

theorem conjunction (h : SameShapes d es es') :
    Option.Rel (SameShape d) (Expr.conjunction es) (Expr.conjunction es') := by
  have lengths : es.length = es'.length := by simpa using congrArg List.length h
  match es, es', lengths with
  | [], [], _ => exact .none
  | [e], [e'], _ => exact .some (List.singleton_inj.1 h)
  | e :: f :: es, e' :: f' :: es', _ => exact .some h.and

theorem of_rel {e e' : Option Expr} (h : Option.Rel (SameShape d) e e') :
    SameShapes d e.toList e'.toList := by
  cases h with
  | none => rfl
  | some h => exact congrArg (fun ps => [ps]) h

end SameShapes

end Expr

/-! ## Statements -/

/-- Statements that differ in the values of their conditions have the same shape. -/
theorem Select.unbound_pieces_congr {columns groupBy : List Expr} {source : Option (Source Select)}
    {joins : List JoinClause} {orderBy : List OrderItem}
    {condition condition' limit offset : Option Expr}
    (h : Option.Rel (Expr.SameShape d) condition condition') :
    (Select.pieces d ⟨columns, source, joins, condition, groupBy, orderBy, limit, offset⟩).map
        Piece.unbound =
      (Select.pieces d ⟨columns, source, joins, condition', groupBy, orderBy, limit, offset⟩).map
        Piece.unbound := by
  have clause : (clausePieces d " where " condition).map Piece.unbound =
      (clausePieces d " where " condition').map Piece.unbound := by
    cases h with
    | none => rfl
    | some h => exact congrArg (Piece.fixed " where " :: ·) h
  simp only [pieces, List.map_cons, List.map_append, clause]

/-- A statement over the rows of another has the shape of the other in its own. -/
theorem Select.unbound_pieces_query {columns : List Expr} {q q' : Select} {label : Option String}
    (h : (q.pieces d).map Piece.unbound = (q'.pieces d).map Piece.unbound) :
    (Select.pieces d { columns, source := some (.query q label) }).map Piece.unbound =
      (Select.pieces d { columns, source := some (.query q' label) }).map Piece.unbound := by
  simp only [pieces, fromPieces, sourcePieces, List.map_cons, List.map_append, h]

end FilterSql.Sql
