import FilterSql.Proofs.Compiler.Scope
import FilterSql.Proofs.Where.Scalars

/-!
# Statements and bound scalars

Filters that differ only in scalars of their conditions that are bound (`Filter.struck`) have the
same plan, and their conditions compile to expressions of the same shape.  So their statements have
the same text and bind equally many values (`text_independent`).
-/

namespace FilterSql

open Sql Json

/-- The filter with the scalars of its conditions struck out. -/
def Filter.struck (f : Filter) : Filter := { f with condition := f.condition.map Json.struck }

theorem Filter.conditions?_struck (f : Filter) :
    f.struck.conditions? = f.conditions?.map struckMembers := by
  unfold conditions?
  cases hc : f.condition with
  | none => simp [struck, hc]
  | some j => simpa [struck, hc] using obj?_struck j

namespace Compiler

variable {c : Compiler} {d : Dialect} {root : Entity}

/-- The plan of a tree does not depend on its scalars. -/
theorem planned_struck (clause : Option Members) (order : List String) :
    c.planned root (clause.map struckMembers) order = c.planned root clause order := by
  refine planned_congr ?_ order
  cases clause with
  | none => rfl
  | some ms =>
    show Session.conditionKeys root (struckMembers ms) = Session.conditionKeys root ms
    rw [Session.conditionKeys, Session.conditionKeys, FilterKey.ofClause_struck]

/-- Statements that differ in bound values only. -/
def SamePieces (d : Dialect) (s s' : Select) : Prop :=
  (s.pieces d).map Piece.unbound = (s'.pieces d).map Piece.unbound

theorem alike_condition (s : Session) (clause : Option Members) :
    Alike (Option.Rel (Expr.SameShape d)) (c.condition root s (clause.map struckMembers))
      (c.condition root s clause) :=
  View.alike_compile d ⟨c.registry, root, s, c.operators⟩ clause

theorem exchangeable_struck (clause : Option Json) :
    c.Exchangeable root (Option.Rel (Expr.SameShape d)) (clause.map Json.struck >>= Json.obj?)
      (clause >>= Json.obj?) := by
  have tree : (clause.map Json.struck >>= Json.obj?) = (clause >>= Json.obj?).map struckMembers :=
    Filter.conditions?_struck { condition := clause }
  rw [tree]
  exact ⟨planned_struck _, fun s => alike_condition s _⟩

theorem carries_samePieces : Carries (Option.Rel (Expr.SameShape d)) (SamePieces d) :=
  Select.unbound_pieces_congr

theorem alike_buildSelect (f : Filter) :
    Alike (SamePieces d) (c.buildSelect root f.struck) (c.buildSelect root f) :=
  (exchangeable_struck f.condition).buildSelect carries_samePieces f

theorem alike_buildCount (clause : Option Json) :
    Alike (SamePieces d) (c.buildCount root { condition := clause.map Json.struck })
      (c.buildCount root { condition := clause }) :=
  (exchangeable_struck clause).buildCount carries_samePieces Select.unbound_pieces_query

/-- Filters that differ only in scalars of their conditions have statements of the same text, which
bind equally many values, or fail with the same error. -/
theorem text_independent (c : Compiler) (entity : String) {f f' : Filter}
    (h : f.struck = f'.struck) :
    Alike Statement.SameText (c.select entity f) (c.select entity f') ∧
      Alike Statement.SameText (c.count entity f.condition) (c.count entity f'.condition) := by
  -- Both filters are compared with the struck one.
  have euclidean (s t u : Select) (ht : SamePieces c.dialect s t) (hu : SamePieces c.dialect s u) :
      SamePieces c.dialect t u := ht.symm.trans hu
  constructor
  · refine Alike.bind_same fun root _ => ?_
    have built : Alike (SamePieces c.dialect) (c.buildSelect root f.struck)
        (c.buildSelect root f') := h ▸ alike_buildSelect f'
    exact ((alike_buildSelect f).through euclidean built).bind fun _ _ same =>
      .ok (sameText_statementOf same)
  · refine Alike.bind_same fun root _ => ?_
    have conditions : Filter.struck { condition := f.condition } =
        Filter.struck { condition := f'.condition } :=
      congrArg (fun f => ({ condition := f.condition } : Filter)) h
    have built : Alike (SamePieces c.dialect)
        (c.buildCount root (Filter.struck { condition := f.condition }))
        (c.buildCount root { condition := f'.condition }) := conditions ▸ alike_buildCount _
    exact ((alike_buildCount _).through euclidean built).bind fun _ _ same =>
      .ok (sameText_statementOf same)

/-- Transports of a parcel by title and identifiers, ordered by their drivers. -/
def depotSearch (title id : Json) : Filter where
  condition := some (.obj [
    ("cargo(Parcel).title", title), ("id", .obj [("in", .arr [id, .int 2])])])
  order := some (.one "drivers.name")

theorem text_independent_depots : ∃ st st',
    (depotSearch (.str "books") (.int 1)).struck = (depotSearch (.bool false) (.str "x")).struck ∧
    depots.select "Transport" (depotSearch (.str "books") (.int 1)) = .ok st ∧
    depots.select "Transport" (depotSearch (.bool false) (.str "x")) = .ok st' ∧ st.SameText st' ∧
    Alike Statement.SameText
      (depots.count "Transport" (depotSearch (.str "books") (.int 1)).condition)
      (depots.count "Transport" (depotSearch (.bool false) (.str "x")).condition) := by
  have struck : (depotSearch (.str "books") (.int 1)).struck =
      (depotSearch (.bool false) (.str "x")).struck := by rfl
  have outcome : (depots.registry.entity? "Transport").map (fun root =>
      ((depots.buildSelect root (depotSearch (.str "books") (.int 1))).map fun s => s.joins.length,
        (depots.buildSelect root (depotSearch (.bool false) (.str "x"))).map fun s =>
          s.joins.length)) = some (.ok 3, .ok 3) := by decide +kernel
  obtain ⟨root, hroot, h⟩ := Option.map_eq_some_iff.1 outcome
  obtain ⟨hleft, hright⟩ := Prod.mk.inj h
  obtain ⟨left, hleft, -⟩ := map_eq_ok.1 hleft
  obtain ⟨right, hright, -⟩ := map_eq_ok.1 hright
  have hst : depots.select "Transport" (depotSearch (.str "books") (.int 1)) =
      .ok (left.render depots.dialect) := by
    rw [select_eq hroot, hleft]
    rfl
  have hst' : depots.select "Transport" (depotSearch (.bool false) (.str "x")) =
      .ok (right.render depots.dialect) := by
    rw [select_eq hroot, hright]
    rfl
  obtain ⟨selected, counted⟩ := text_independent depots "Transport" struck
  exact ⟨_, _, struck, hst, hst', selected.related hst hst', counted⟩

end Compiler

end FilterSql
