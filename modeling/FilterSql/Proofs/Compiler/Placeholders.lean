import FilterSql.Proofs.Compiler.Parts

/-!
# Placeholders and bound values

A reader of a compiled statement that skips names and literals finds one placeholder for each bound
value, and the values are, in this order, the discriminators of the joins, the values of the
condition, the limit and the offset (`bindings_aligned`).  Neither the values nor the outcome depend
on the dialect.
-/

namespace FilterSql

open Sql

/-- Outside its quotes the text has one placeholder for each bound value: `$1`, `$2` and so on in
PostgreSQL, and question marks elsewhere. -/
def Sql.Statement.Aligned (st : Statement) (d : Dialect) : Prop :=
  ∃ ts, lex d st.text.toList = some ts ∧
    placeholders d ts = (List.range st.bindings.length).map (marker d)

theorem Sql.Select.aligned_render {s : Select} (h : ∀ a ∈ s.atoms, a.Known) (d : Dialect) :
    (s.render d).Aligned d := by
  refine ⟨tokens d 0 (s.pieces d), Select.lex_render h d, ?_⟩
  rw [placeholders_tokens (Select.readable_pieces s h), List.range_eq_range']
  rfl

/-- The value bound for a bound on the number of rows. -/
def rowBoundValues (j : Option Json) : List Value := (j >>= rowBound?).toList.map .int

theorem values_boundExpr (j : Option Json) :
    (boundExpr? j).toList.flatMap Expr.values = rowBoundValues j := by
  unfold boundExpr? rowBoundValues
  cases j >>= rowBound? <;> rfl

theorem values_eq_nil {es : List Expr} (h : ∀ e ∈ es, e.values = []) :
    es.flatMap Expr.values = [] :=
  List.flatMap_eq_nil_iff.2 h

theorem values_idColumns (root : Entity) : root.idColumns.flatMap Expr.values = [] :=
  values_eq_nil fun _ he => (Entity.reads_idColumns he).values

theorem values_selectionColumns (root : Entity) (fields : Option FieldsSpec) (hasJoins : Bool) :
    (root.selectionColumns fields hasJoins).flatMap Expr.values = [] := by
  refine values_eq_nil fun e he => ?_
  obtain he | rfl := Entity.mem_selectionColumns he
  · exact he.values
  · rfl

theorem values_orderItems {g : Registry} {root : Entity} {s : Session} {order : List String}
    {items : List OrderItem} (h : orderItems g root s order = .ok items) :
    items.flatMap (fun o => o.expr.values) = [] := by
  refine List.flatMap_eq_nil_iff.2 fun o ho => ?_
  obtain ⟨key, hkey⟩ := mem_orderItems h ho
  obtain ⟨q, hq, -⟩ := reads_orderExpr hkey
  exact hq.values

namespace Sql

theorem values_select (columns groupBy : List Expr) (source : Option (Source Select))
    (joins : List JoinClause) (condition limit offset : Option Expr) (orderBy : List OrderItem) :
    Select.values ⟨columns, source, joins, condition, groupBy, orderBy, limit, offset⟩ =
      columns.flatMap Expr.values ++ (fromAtoms source).filterMap Atom.value? ++
        joins.flatMap (fun j => j.condition.values) ++ condition.toList.flatMap Expr.values ++
        groupBy.flatMap Expr.values ++ orderBy.flatMap (fun o => o.expr.values) ++
        limit.toList.flatMap Expr.values ++ offset.toList.flatMap Expr.values := by
  simp only [Select.values, Select.atoms, List.filterMap_append, Expr.values_flatMap,
    values_flatMap_of]

end Sql

namespace Compiler

variable {c : Compiler} {root : Entity} {f : Filter} {built : Select}

/-- What a statement that fetches rows binds. -/
theorem values_buildSelect (h : c.buildSelect root f = .ok built) :
    ∃ s condition,
      c.planned root f.conditions? (f.effectiveOrder root) = .ok s ∧
      c.condition root s f.conditions? = .ok condition ∧
      built.values = s.joins.filterMap Join.discriminatorValue? ++
        condition.toList.flatMap Expr.values ++ rowBoundValues f.limit ++
        rowBoundValues (f.skip <|> f.offset) := by
  obtain ⟨s, condition, orderBy, joins, hs, hc, ho, hj, rfl⟩ := buildSelect_eq_ok.1 h
  refine ⟨s, condition, hs, hc, ?_⟩
  have group : (if s.hasJoins then root.idColumns else []).flatMap Expr.values = [] := by
    split_ifs
    · exact values_idColumns root
    · rfl
  rw [values_select, values_selectionColumns, values_joinClauses hj, group, values_orderItems ho,
    values_boundExpr, values_boundExpr]
  simp [fromAtoms, sourceAtoms]

/-- What a statement that counts rows binds. -/
theorem values_buildCount (h : c.buildCount root f = .ok built) :
    ∃ s condition, c.planned root f.conditions? [] = .ok s ∧
      c.condition root s f.conditions? = .ok condition ∧
      built.values = s.joins.filterMap Join.discriminatorValue? ++
        condition.toList.flatMap Expr.values := by
  have count : [countExpr].flatMap Expr.values = [] := rfl
  obtain ⟨s, condition, hs, hc, ⟨hnone, rfl⟩ | ⟨joins, hj, -, rfl⟩⟩ := buildCount_cases h
  · refine ⟨s, condition, hs, hc, ?_⟩
    rw [values_select, count, hnone]
    simp [fromAtoms, sourceAtoms]
  · refine ⟨s, condition, hs, hc, ?_⟩
    have columns : (if root.idColumns.isEmpty then [.all (some root.tableName)]
        else root.idColumns).flatMap Expr.values = [] := by
      split_ifs
      · rfl
      · exact values_idColumns root
    have inner : (groupedSelect root joins condition).values =
        s.joins.filterMap Join.discriminatorValue? ++ condition.toList.flatMap Expr.values := by
      rw [groupedSelect, values_select, columns, values_joinClauses hj, values_idColumns]
      simp [fromAtoms, sourceAtoms]
    rw [values_select, count]
    simpa [fromAtoms, sourceAtoms, Select.values] using inner

/-- Rendering in all dialects fails with one error, or comes from one statement. -/
theorem render_cases {run : Dialect → Except CompileError Statement}
    {r : Except CompileError Select} (h : ∀ d, run d = r.map (·.render d)) :
    (∃ e, ∀ d, run d = .error e) ∨
      ∃ built, r = .ok built ∧ ∀ d, run d = .ok (built.render d) := by
  cases r with
  | error e => exact .inl ⟨e, h⟩
  | ok built => exact .inr ⟨built, rfl, h⟩

/-- An entity that is not registered is an error in all dialects. -/
theorem error_of_unknown {g : Registry} (ops : Operators) {entity : String}
    (h : g.entity? entity = none) :
    (∀ f d, select ⟨g, d, ops⟩ entity f = .error (.schema (.unknownEntity entity))) ∧
      ∀ clause d, count ⟨g, d, ops⟩ entity clause = .error (.schema (.unknownEntity entity)) := by
  have unknown : g.entity entity = .error (.unknownEntity entity) := by
    rw [Registry.entity, h]
  constructor
  · intro f d
    rw [select, unknown]
    rfl
  · intro clause d
    rw [count, unknown]
    rfl

/-- In all dialects a filter fails with the same error, or it has a statement whose placeholders
stand for the same values: the discriminators of the planned joins, the values of the condition, and
the bounds on the number of rows.  The same holds of a count, which has no bounds. -/
theorem bindings_aligned (g : Registry) (ops : Operators) (entity : String) :
    (∀ f : Filter,
      (∃ e, ∀ d, select ⟨g, d, ops⟩ entity f = .error e) ∨
      ∃ root s condition, g.entity? entity = some root ∧
        Session.plan g root f.conditions? (f.effectiveOrder root) {} = (s, .ok ()) ∧
        View.compile ⟨g, root, s, ops⟩ f.conditions? = .ok condition ∧
        ∀ d, ∃ st, select ⟨g, d, ops⟩ entity f = .ok st ∧ st.Aligned d ∧
          st.bindings = s.joins.filterMap Join.discriminatorValue? ++
            condition.toList.flatMap Expr.values ++ rowBoundValues f.limit ++
            rowBoundValues (f.skip <|> f.offset)) ∧
    ∀ clause : Option Json,
      (∃ e, ∀ d, count ⟨g, d, ops⟩ entity clause = .error e) ∨
      ∃ root s condition, g.entity? entity = some root ∧
        Session.plan g root (clause >>= Json.obj?) [] {} = (s, .ok ()) ∧
        View.compile ⟨g, root, s, ops⟩ (clause >>= Json.obj?) = .ok condition ∧
        ∀ d, ∃ st, count ⟨g, d, ops⟩ entity clause = .ok st ∧ st.Aligned d ∧
          st.bindings = s.joins.filterMap Join.discriminatorValue? ++
            condition.toList.flatMap Expr.values := by
  cases hroot : g.entity? entity with
  | none =>
    obtain ⟨noSelect, noCount⟩ := error_of_unknown ops hroot
    exact ⟨fun f => .inl ⟨_, noSelect f⟩, fun clause => .inl ⟨_, noCount clause⟩⟩
  | some root =>
    constructor
    · intro f
      -- Building does not look at the dialect, so that of any compiler will do.
      have rendered (d : Dialect) : select ⟨g, d, ops⟩ entity f =
          (buildSelect ⟨g, .postgres, ops⟩ root f).map (·.render d) := select_eq hroot f
      obtain failed | ⟨built, hbuilt, run⟩ := render_cases rendered
      · exact .inl failed
      obtain ⟨s, condition, hplan, hcond, hvalues⟩ := values_buildSelect hbuilt
      refine .inr ⟨root, s, condition, rfl, planned_eq_ok.1 hplan, hcond, fun d => ?_⟩
      refine ⟨built.render d, run d, ?_, (built.bindings_pieces d).trans hvalues⟩
      exact Select.aligned_render (known_buildSelect hbuilt) d
    · intro clause
      have rendered (d : Dialect) : count ⟨g, d, ops⟩ entity clause =
          (buildCount ⟨g, .postgres, ops⟩ root { condition := clause }).map (·.render d) :=
        count_eq hroot clause
      obtain failed | ⟨built, hbuilt, run⟩ := render_cases rendered
      · exact .inl failed
      obtain ⟨s, condition, hplan, hcond, hvalues⟩ := values_buildCount hbuilt
      refine .inr ⟨root, s, condition, rfl, planned_eq_ok.1 hplan, hcond, fun d => ?_⟩
      refine ⟨built.render d, run d, ?_, (built.bindings_pieces d).trans hvalues⟩
      exact Select.aligned_render (known_buildCount hbuilt) d

end Compiler

end FilterSql
