import FilterSql.EntityQuery
import FilterSql.Proofs.Plan.Steps
import FilterSql.Proofs.Projection.Selection
import Mathlib.Data.List.Nodup

/-!
# Rows under the names of properties

A query gives the rows of its statement under the names of properties.  If no two properties share a
column, a column that was selected for a property comes back under its name
(`Entity.propertyField_column`), so the rows have the selected properties as their fields
(`EntityQuery.find_named`).
-/

namespace FilterSql

open Sql

/-- The name that a selected column has in the rows: that of the column without its table, or its
label. -/
def Sql.Expr.outputName? : Expr → Option String
  | .column c => some c.name
  | .named _ label => some label
  | _ => none

namespace Entity

variable {e : Entity} {names : List String}

theorem value_propertyField (e : Entity) (f : Field) : (e.propertyField f).value = f.value := by
  unfold propertyField
  split <;> rfl

/-- The column of a declared property comes back under the name of the property. -/
theorem propertyField_column (columns : (e.properties.map Property.column).Nodup) {f : Field}
    {name : String} (declared : e.hasProperty name = true) (hf : f.name = e.column name) :
    (e.propertyField f).name = name := by
  obtain ⟨p, hp, rfl, hcolumn⟩ := exists_property declared
  have found : e.properties.find? (fun q => q.column == f.name) = some p := by
    cases hq : e.properties.find? (fun q => q.column == f.name) with
    | none =>
      have missed := List.find?_eq_none.1 hq p hp
      simp [hf, hcolumn] at missed
    | some q =>
      have column : q.column = f.name := by simpa using List.find?_some hq
      rw [List.inj_on_of_nodup_map columns (List.mem_of_find?_eq_some hq) hp
        (column.trans (hf.trans hcolumn))]
  rw [propertyField, found]

/-- A row of selected columns becomes one of the selected properties. -/
theorem names_propertyRow (columns : (e.properties.map Property.column).Nodup)
    (declared : ∀ n ∈ names, e.hasProperty n = true) {r : Row}
    (hr : r.fields.map (·.name) = names.map e.column) :
    (e.propertyRow r).fields.map (·.name) = names := by
  have paired : List.Forall₂ (fun n (f : Field) => e.column n = f.name) names r.fields := by
    rw [eq_comm, ← List.forall₂_eq_eq_eq, List.forall₂_map_left_iff,
      List.forall₂_map_right_iff] at hr
    exact hr
  rw [propertyRow, List.map_map, eq_comm, ← List.forall₂_eq_eq_eq, List.forall₂_map_right_iff]
  exact ((List.forall₂_and_left _ _).2 ⟨declared, paired⟩).imp fun n f h =>
    (propertyField_column columns h.1 h.2.symm).symm

theorem values_propertyRow (e : Entity) (r : Row) :
    (e.propertyRow r).fields.map (·.value) = r.fields.map (·.value) := by
  rw [propertyRow, List.map_map]
  exact List.map_congr_left fun f _ => e.value_propertyField f

/-- In the rows, selected properties are called by their columns. -/
theorem outputName?_selectionColumns {fields : Option FieldsSpec}
    (h : e.selection? fields = some names) (hne : names ≠ []) (hasJoins : Bool) :
    (e.selectionColumns fields hasJoins).map Expr.outputName? =
      (names.map e.column).map some := by
  rw [selectionColumns_of_ne_nil h hne, List.map_map, List.map_map]
  rfl

end Entity

namespace EntityQuery

variable {m : Type → Type} [Monad m] [LawfulMonad m] {c : Compiler} {entity : String}
  {q : EntityQuery} {f : Filter} {st : Statement} {names : List String}

theorem ofName_eq_ok_iff : ofName c entity = .ok q ↔
    q.compiler = c ∧ c.registry.entity? entity = some q.root := by
  rw [ofName, map_eq_ok]
  simp only [ofSchema_eq_ok, Registry.entity_eq_ok]
  constructor
  · rintro ⟨root, hroot, rfl⟩
    exact ⟨rfl, hroot⟩
  · rintro ⟨rfl, hroot⟩
    exact ⟨q.root, hroot, rfl⟩

/-- What is found is what the statement gives, under the names of properties. -/
theorem find_eq (h : q.compiler.select q.root.name f = .ok st)
    (run : Statement → ExceptT QueryError m (List Row)) :
    q.find run f = (fun rows => rows.map q.root.propertyRow) <$> run st := by
  rw [find, h]
  simp [compiled]

/-- If the properties have columns of their own, and what runs the statement gives rows in the columns
that it selects, the rows found have the selected properties as fields, in order and with the
same values. -/
theorem find_named (hq : ofName c entity = .ok q)
    (columns : (q.root.properties.map Property.column).Nodup) (hst : c.select entity f = .ok st)
    (hnames : q.root.selection? f.fields = some names) (hne : names ≠ []) :
    ∃ built, c.buildSelect q.root f = .ok built ∧ st = built.render c.dialect ∧
      ∀ {α : Type} (run : Statement → ExceptT QueryError m (List Row))
        (work : ExceptT QueryError m α) (rows : α → List Row), run st = rows <$> work →
        (∀ a, ∀ r ∈ rows a,
          r.fields.map (fun f => some f.name) = built.columns.map Expr.outputName?) →
        ∃ found : α → List Row, q.find run f = found <$> work ∧
          ∀ a, List.Forall₂ (fun r r' => r'.entity = entity ∧ r'.fields.map (·.name) = names ∧
            r'.fields.map (·.value) = r.fields.map (·.value)) (rows a) (found a) := by
  obtain ⟨rfl, hroot⟩ := ofName_eq_ok_iff.1 hq
  obtain rfl := Registry.name_of_entity? hroot
  obtain ⟨built, hbuilt, rfl⟩ := map_eq_ok.1 ((Compiler.select_eq hroot f).symm.trans hst)
  refine ⟨built, hbuilt, rfl, fun run work rows hrun hrows => ?_⟩
  refine ⟨fun a => (rows a).map q.root.propertyRow, ?_, fun a => ?_⟩
  · rw [find_eq hst, hrun, ← comp_map]
    rfl
  · obtain ⟨s, condition, orderBy, joins, -, -, -, -, rfl⟩ := Compiler.buildSelect_eq_ok.1 hbuilt
    rw [List.forall₂_map_right_iff, List.forall₂_same]
    intro r hr
    refine ⟨rfl, ?_, q.root.values_propertyRow r⟩
    refine Entity.names_propertyRow columns
      (fun n hn => Entity.hasProperty_of_mem_selection? hnames hn) ?_
    have named := hrows a r hr
    rw [Entity.outputName?_selectionColumns hnames hne, ← Function.comp_def some,
      ← List.map_map] at named
    exact List.map_injective_iff.2 (fun _ _ => Option.some.inj) named

/-- People, of whose names each is kept in the column that is called like the other. -/
def people : Compiler := { registry := ⟨.ofList [
  { name := "Person",
    properties := [{ name := "id", isId := true }, { name := "first", storage := some "last" },
      { name := "last", storage := some "first" }] }]⟩ }

/-- A filter that asks for the names of people. -/
def lastFirst : Filter := { fields := some (.list ["last", "nickname", "first"]) }

/-- A row of names, in the columns that the filter selects. -/
def ada : Row := ⟨"", [⟨"first", .string "Lovelace"⟩, ⟨"last", .string "Ada"⟩]⟩

/-- Answers every statement with one row. -/
def answer (_ : Statement) : ExceptT QueryError Id (List Row) := return [ada]

theorem find_named_people : ∃ q st built, ofName people "Person" = .ok q ∧
    (q.root.properties.map Property.column).Nodup ∧ people.select "Person" lastFirst = .ok st ∧
    q.root.selection? lastFirst.fields = some ["last", "first"] ∧ ["last", "first"] ≠ [] ∧
    people.buildSelect q.root lastFirst = .ok built ∧ st = built.render people.dialect ∧
    answer st = (fun _ : Unit => [ada]) <$> pure () ∧
    (∀ r ∈ [ada], r.fields.map (fun f => some f.name) = built.columns.map Expr.outputName?) ∧
    ∃ found : Unit → List Row, q.find answer lastFirst = found <$> pure () ∧
      ∀ a, List.Forall₂ (fun r r' => r'.entity = "Person" ∧
        r'.fields.map (·.name) = ["last", "first"] ∧
        r'.fields.map (·.value) = r.fields.map (·.value)) [ada] (found a) := by
  have parts : ∃ root ∈ people.registry.entity? "Person",
      (root.properties.map Property.column).Nodup ∧
      root.selection? lastFirst.fields = some ["last", "first"] ∧
      (people.buildSelect root lastFirst).map (fun built => built.columns.map Expr.outputName?) =
        .ok [some "first", some "last"] := by
    decide +kernel
  obtain ⟨root, hroot, columns, hnames, houtput⟩ := parts
  obtain ⟨built, hbuilt, houtput⟩ := map_eq_ok.1 houtput
  have hq : ofName people "Person" = .ok ⟨people, root⟩ := ofName_eq_ok_iff.2 ⟨rfl, hroot⟩
  have hst : people.select "Person" lastFirst = .ok (built.render people.dialect) := by
    rw [Compiler.select_eq hroot, hbuilt]
    rfl
  have hrows : ∀ r ∈ [ada],
      r.fields.map (fun f => some f.name) = built.columns.map Expr.outputName? := by
    rw [houtput]
    exact List.forall_mem_singleton.2 rfl
  obtain ⟨built', hbuilt', -, found⟩ := find_named (m := Id) hq columns hst hnames (by simp)
  obtain rfl := Except.ok.inj (hbuilt.symm.trans hbuilt')
  exact ⟨_, _, built, hq, columns, hst, hnames, by simp, hbuilt, rfl, rfl, hrows,
    found answer (pure ()) (fun _ => [ada]) rfl fun _ => hrows⟩

end EntityQuery

end FilterSql
