import FilterSql.Proofs.Compiler.Scope
import FilterSql.Proofs.Plan.Numbers

/-!
# Names of tables

A compiled statement names the table of its root and the joins of its plan, and nothing else
(`tables_buildSelect`, `tables_buildCount`).  These names are different unless a relation goes by
way of a table that is called like the table where it leads, or the root is called like a join
(`tables_distinct`): the two joins of a relation share their number.
-/

namespace FilterSql

open Sql

/-- The name that a source goes by in a statement. -/
def Sql.Source.name? : Source Select → Option String
  | .table t label => some (label.getD t.name)
  | .query _ label => label

/-- The names of the tables in a statement: where its rows come from, then what is joined. -/
def Sql.Select.tables (s : Select) : List String :=
  (s.source.bind Source.name?).toList ++ s.joins.map fun j => j.label.getD j.table.name

namespace Compiler

variable {c : Compiler} {root : Entity} {f : Filter} {built : Select} {s : Session}
  {joins : List JoinClause}

/-- A statement over the table of the root and planned joins names these. -/
theorem tables_eq_labels (hj : c.registry.joinClauses s = .ok joins)
    (hsource : built.source = some (.table root.storage none)) (hjoins : built.joins = joins) :
    built.tables = s.labels root := by
  have labels : joins.map (fun j => j.label.getD j.table.name) = s.joins.map (·.label) := by
    have clauses := labels_joinClauses hj
    refine List.ext_getElem? fun i => ?_
    have each := congrArg (·[i]?) clauses
    simp only [List.getElem?_map] at each ⊢
    cases hi : joins[i]? <;> cases hi' : s.joins[i]? <;> simp_all
  rw [Select.tables, hsource, hjoins, labels]
  rfl

theorem tables_buildSelect (h : c.buildSelect root f = .ok built) :
    ∃ s, Session.Reached c.registry root s ∧ built.tables = s.labels root := by
  obtain ⟨s, condition, orderBy, joins, hs, -, -, hj, rfl⟩ := buildSelect_eq_ok.1 h
  exact ⟨s, planned_reached hs, tables_eq_labels hj rfl rfl⟩

theorem tables_buildCount (h : c.buildCount root f = .ok built) :
    ∃ s, Session.Reached c.registry root s ∧ built.counted.tables = s.labels root ∧
      (built.tables = s.labels root ∨ built.tables = [countedLabel]) := by
  obtain ⟨s, condition, hs, -, ⟨hnone, rfl⟩ | ⟨joins, hj, -, rfl⟩⟩ := buildCount_cases h
  · have nothing : c.registry.joinClauses s = .ok [] := by
      rw [Registry.joinClauses, hnone]
      rfl
    have tables : Select.tables
        { columns := [countExpr], source := some (.table root.storage none), condition } =
          s.labels root :=
      tables_eq_labels nothing rfl rfl
    exact ⟨s, planned_reached hs, tables, .inl tables⟩
  · exact ⟨s, planned_reached hs, tables_eq_labels hj rfl rfl, .inr rfl⟩

/-- The names of the tables in a statement are the labels of a plan, and the labels of a plan are
different just in case no relation has two tables of one name and no join is called like the
root. -/
theorem tables_distinct (c : Compiler) (root : Entity) :
    (∀ s, Session.Reached c.registry root s →
      ((s.labels root).Nodup ↔ s.Apart c.registry root)) ∧
    (∀ f built, c.buildSelect root f = .ok built →
      ∃ s, Session.Reached c.registry root s ∧ built.tables = s.labels root) ∧
    ∀ f built, c.buildCount root f = .ok built →
      ∃ s, Session.Reached c.registry root s ∧ built.counted.tables = s.labels root ∧
        (built.tables = s.labels root ∨ built.tables = [countedLabel]) :=
  ⟨fun _ hs => hs.numbered.nodup_labels_iff, fun _ _ => tables_buildSelect,
    fun _ _ => tables_buildCount⟩

theorem tables_distinct_depots : ∃ root built, depots.registry.entity? "Transport" = some root ∧
    depots.buildSelect root depotFilter = .ok built ∧
    built.tables = ["transport", "t_0_0_parcel", "t_1_0_shift", "t_1_0_driver"] ∧
    ∃ s, Session.Reached depots.registry root s ∧ s.Apart depots.registry root := by
  have outcome : (depots.registry.entity? "Transport").map (fun root =>
      (depots.buildSelect root depotFilter).map Select.tables) =
      some (.ok ["transport", "t_0_0_parcel", "t_1_0_shift", "t_1_0_driver"]) := by
    decide +kernel
  obtain ⟨root, hroot, h⟩ := Option.map_eq_some_iff.1 outcome
  obtain ⟨built, hbuilt, htables⟩ := map_eq_ok.1 h
  obtain ⟨apart, select, -⟩ := tables_distinct depots root
  obtain ⟨s, hs, hlabels⟩ := select depotFilter built hbuilt
  refine ⟨root, built, hroot, hbuilt, htables, s, hs, (apart s hs).1 ?_⟩
  rw [← hlabels, htables]
  decide +kernel

/-- Categories in a tree, whose grandchildren are reached by way of categories. -/
def categories : Compiler where
  registry := ⟨.ofList [{
    name := "Category"
    properties := [{ name := "id", isId := true }, { name := "name" }, { name := "parentId" }]
    relations := .ofList [("grandchildren", .through ⟨"Category", none, some "parentId",
      ⟨"Category", some "parentId", some "id", none⟩⟩)] }]⟩

/-- A condition on grandchildren. -/
def categoryFilter : Filter where
  condition := some (.obj [("grandchildren.name", .str "x")])

/-- A relation by way of its own target has one label for both joins. -/
theorem tables_repeated_categories : ∃ root s built,
    categories.registry.entity? "Category" = some root ∧
    Session.Reached categories.registry root s ∧
    s.joins.map (·.label) = ["t_0_0_category", "t_0_0_category"] ∧
    categories.buildSelect root categoryFilter = .ok built ∧
    built.tables = ["category", "t_0_0_category", "t_0_0_category"] ∧ ¬ built.tables.Nodup := by
  have outcome : (categories.registry.entity? "Category").map (fun root =>
      (categories.buildSelect root categoryFilter).map fun built =>
        (root.tableName, built.tables)) =
      some (.ok ("category", ["category", "t_0_0_category", "t_0_0_category"])) := by
    decide +kernel
  obtain ⟨root, hroot, h⟩ := Option.map_eq_some_iff.1 outcome
  obtain ⟨built, hbuilt, h⟩ := map_eq_ok.1 h
  obtain ⟨hname, htables⟩ := Prod.mk.inj h
  obtain ⟨s, hs, hlabels⟩ := tables_buildSelect hbuilt
  refine ⟨root, s, built, hroot, hs, ?_, hbuilt, htables, ?_⟩
  · rw [htables, Session.labels, hname] at hlabels
    exact (List.cons.inj hlabels).2.symm
  · rw [htables]
    decide +kernel

end Compiler

end FilterSql
