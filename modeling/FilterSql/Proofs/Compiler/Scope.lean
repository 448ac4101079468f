import FilterSql.Proofs.Compiler.Parts
import FilterSql.Proofs.Plan.Labels

/-!
# Tables before columns

Every column of a compiled statement belongs to a table at hand (`columns_scoped`): to the root or
to a join of the same statement, and in the condition of a join to one that does not come later.
As soon as there are joins, every column says its table.
-/

namespace FilterSql

open Sql

/-- The statement names no table that is not at hand, and leaves no column ambiguous. -/
structure Sql.Select.Scoped (root : String) (s : Select) : Prop where
  /-- Tables before columns are the root and the joins. -/
  clauses : ∀ e ∈ s.columns ++ s.condition.toList ++ s.groupBy ++ s.orderBy.map (·.expr),
    ∀ q, some q ∈ e.qualifiers → q = root ∨ some q ∈ s.joins.map (·.label)
  /-- In the condition of a join they are the root and the joins up to this one. -/
  joins : ∀ i j, s.joins[i]? = some j → ∀ q, some q ∈ j.condition.qualifiers →
    q = root ∨ some q ∈ (s.joins.take (i + 1)).map (·.label)
  /-- With joins every column anywhere in the statement says its table. -/
  qualified : s.joins ≠ [] → none ∉ s.qualifiers

/-- The statement whose rows are counted, if the rows are those of another statement. -/
def Sql.Select.counted (s : Select) : Select :=
  match s.source with
  | some (.query q _) => q
  | _ => s

theorem Sql.mem_qualifiers_select {columns groupBy : List Expr} {t : Table} {label : Option String}
    {joins : List JoinClause} {condition limit offset : Option Expr} {orderBy : List OrderItem}
    {q : Option String}
    (h : q ∈ Select.qualifiers ⟨columns, some (.table t label), joins, condition, groupBy, orderBy,
      limit, offset⟩) :
    (∃ e ∈ columns ++ condition.toList ++ groupBy ++ orderBy.map (·.expr), q ∈ e.qualifiers) ∨
      (∃ j ∈ joins, q ∈ j.condition.qualifiers) ∨
      ∃ e ∈ limit.toList ++ offset.toList, q ∈ e.qualifiers := by
  obtain ⟨a, ha, hq⟩ := List.mem_filterMap.1 h
  have mem {e : Expr} (h : a ∈ e.atoms) : q ∈ e.qualifiers := List.mem_filterMap.2 ⟨a, h, hq⟩
  simp only [Select.atoms, fromAtoms, sourceAtoms, List.append_nil, List.mem_append,
    List.mem_flatMap] at ha
  obtain ((((((⟨e, he, ha⟩ | ⟨j, hj, ha⟩) | ⟨e, he, ha⟩) | ⟨e, he, ha⟩) | ⟨o, ho, ha⟩) |
    ⟨e, he, ha⟩) | ⟨e, he, ha⟩) := ha
  · exact .inl ⟨e, by simp [he], mem ha⟩
  · exact .inr (.inl ⟨j, hj, mem ha⟩)
  · exact .inl ⟨e, by simp [Option.mem_toList.1 he], mem ha⟩
  · exact .inl ⟨e, by simp [he], mem ha⟩
  · exact .inl ⟨o.expr, List.mem_append_right _ (List.mem_map_of_mem ho), mem ha⟩
  · exact .inr (.inr ⟨e, List.mem_append_left _ he, mem ha⟩)
  · exact .inr (.inr ⟨e, List.mem_append_right _ he, mem ha⟩)

/-! ## Expressions over tables at hand -/

/-- May a column be of this table?  Without joins it need not say its table. -/
def Session.AtHand (root : Entity) (s : Session) : Option String → Prop
  | some label => label ∈ s.labels root
  | none => s.joins = []

/-- All columns of the expression are of tables at hand. -/
def Session.Covers (root : Entity) (s : Session) (e : Expr) : Prop :=
  ∀ q ∈ e.qualifiers, s.AtHand root q

section

variable {root : Entity} {s : Session}

theorem Session.atHand_root (root : Entity) (s : Session) : s.AtHand root (some root.tableName) :=
  List.mem_cons_self

theorem Session.covers_of_reads {q : Option String} {e : Expr} (h : e.Reads q)
    (hq : s.AtHand root q) : s.Covers root e := by
  intro p hp
  rw [h.qualifiers, List.mem_singleton] at hp
  exact hp ▸ hq

theorem View.atHand_rootQualifier (w : View) : w.session.AtHand w.root w.rootQualifier := by
  unfold rootQualifier
  split
  · exact Session.atHand_root w.root w.session
  · rename_i h
    simp only [Bool.or_eq_true, not_or] at h
    simpa [Session.AtHand, Session.hasJoins] using h.1

theorem View.covers_resolveKey {w : View} (linked : w.session.Linked w.root) {key : String}
    {e : Expr} (h : w.resolveKey key = .ok (some e)) : w.session.Covers w.root e := by
  obtain ⟨q, hq, rfl | ⟨p, hp, rfl⟩⟩ := View.reads_resolveKey h
  · exact Session.covers_of_reads hq w.atHand_rootQualifier
  · exact Session.covers_of_reads hq (linked.endpoint .condition key p hp)

theorem covers_orderExpr {g : Registry} (linked : s.Linked root) {key : String} {e : Expr}
    (h : orderExpr g root s key = .ok e) : s.Covers root e := by
  obtain ⟨q, hq, rfl | ⟨p, hp, rfl⟩⟩ := reads_orderExpr h
  · exact Session.covers_of_reads hq (Session.atHand_root root s)
  · exact Session.covers_of_reads hq (linked.endpoint .order key p hp)

theorem covers_idColumns {e : Expr} (h : e ∈ root.idColumns) : s.Covers root e :=
  Session.covers_of_reads (Entity.reads_idColumns h) (Session.atHand_root root s)

theorem covers_all : s.Covers root (.all (some root.tableName)) := by
  intro q hq
  obtain rfl : q = some root.tableName := by
    simpa [Expr.qualifiers, Expr.atoms, Atom.qualifier?] using hq
  exact Session.atHand_root root s

theorem covers_selectionColumns {fields : Option FieldsSpec} {hasJoins : Bool} {e : Expr}
    (h : e ∈ root.selectionColumns fields hasJoins) : s.Covers root e := by
  obtain h | rfl := Entity.mem_selectionColumns h
  · exact Session.covers_of_reads h (Session.atHand_root root s)
  · exact covers_all

end

namespace Compiler

variable {c : Compiler} {root : Entity} {f : Filter} {built : Select} {s : Session}
  {joins : List JoinClause} {condition : Option Expr}

theorem planned_reached {clause : Option Members} {order : List String}
    (h : c.planned root clause order = .ok s) : Session.Reached c.registry root s :=
  .of_plan (planned_eq_ok.1 h)

theorem planned_linked {clause : Option Members} {order : List String}
    (h : c.planned root clause order = .ok s) : s.Linked root :=
  (planned_reached h).linked

theorem covers_condition (linked : s.Linked root) {clause : Option Members}
    (h : c.condition root s clause = .ok condition) {e : Expr} (he : e ∈ condition) :
    s.Covers root e := by
  intro q hq
  obtain ⟨a, ha, hq⟩ := List.mem_filterMap.1 hq
  obtain rfl := Option.mem_def.1 he
  obtain ⟨v, rfl⟩ | ⟨key, k, hk, ha⟩ := (View.compiled_compile h).atoms a ha
  · cases hq
  · exact View.covers_resolveKey linked hk q (List.mem_filterMap.2 ⟨a, ha, hq⟩)

theorem qualifiers_boundExpr {j : Option Json} {e : Expr} (h : e ∈ boundExpr? j) :
    e.qualifiers = [] := by
  obtain ⟨n, -, rfl⟩ := Option.map_eq_some_iff.1 h
  rfl

/-- The labels of join clauses are those of the planned joins. -/
theorem labels_joinClauses (h : c.registry.joinClauses s = .ok joins) :
    joins.map (·.label) = s.joins.map fun j => some j.label := by
  replace h : List.Forall₂ (fun j clause => c.registry.joinClause j = .ok clause) s.joins joins :=
    mapM_eq_ok.1 h
  generalize s.joins = planned at h ⊢
  induction h with
  | nil => rfl
  | cons hj _ ih => rw [List.map_cons, List.map_cons, (atoms_joinClause hj).1, ih]

/-- A join names its parent and itself, and its parent comes before it. -/
theorem atHand_joinClause (linked : s.Linked root) (h : c.registry.joinClauses s = .ok joins)
    {i : Nat} {clause : JoinClause} (hi : joins[i]? = some clause) {q : Option String}
    (hq : q ∈ clause.condition.qualifiers) :
    ∃ label, q = some label ∧
      (label = root.tableName ∨ some label ∈ (joins.take (i + 1)).map (·.label)) := by
  obtain ⟨j, hj, hclause⟩ := joinClauses_getElem? h hi
  rw [List.map_take, labels_joinClauses h, ← List.map_take]
  obtain rfl | rfl := qualifiers_joinClause hclause hq
  · refine ⟨j.parentLabel, rfl, ?_⟩
    obtain hroot | hbefore := List.mem_cons.1 (linked.parent i j hj)
    · exact .inl hroot
    · obtain ⟨k, hk, hlabel⟩ := List.mem_map.1 hbefore
      refine .inr (List.mem_map.2 ⟨k, ?_, by rw [hlabel]⟩)
      exact (List.take_prefix_take_left (by omega)).subset hk
  · refine ⟨j.label, rfl, .inr (List.mem_map.2 ⟨j, ?_, rfl⟩)⟩
    exact List.mem_iff_getElem?.2 ⟨i, by rw [List.getElem?_take_of_lt (by omega), hj]⟩

/-- A statement over the tables at hand is scoped. -/
theorem scoped_select (linked : s.Linked root) (hj : c.registry.joinClauses s = .ok joins)
    {columns groupBy : List Expr} {t : Table} {label : Option String} {limit offset : Option Expr}
    {orderBy : List OrderItem}
    (covers : ∀ e ∈ columns ++ condition.toList ++ groupBy ++ orderBy.map (·.expr), s.Covers root e)
    (bounds : ∀ e ∈ limit.toList ++ offset.toList, e.qualifiers = []) :
    Select.Scoped root.tableName ⟨columns, some (.table t label), joins, condition, groupBy,
      orderBy, limit, offset⟩ where
  clauses e he q hq := by
    rw [labels_joinClauses hj]
    obtain hroot | hjoin := List.mem_cons.1 (covers e he _ hq)
    · exact .inl hroot
    · obtain ⟨j, hj, rfl⟩ := List.mem_map.1 hjoin
      exact .inr (List.mem_map.2 ⟨j, hj, rfl⟩)
  joins i j hi q hq := by
    obtain ⟨label, hlabel, h⟩ := atHand_joinClause linked hj hi hq
    obtain rfl := Option.some.inj hlabel
    exact h
  qualified hne hnone := by
    obtain ⟨e, he, hq⟩ | ⟨j, hmem, hq⟩ | ⟨e, he, hq⟩ := mem_qualifiers_select hnone
    · -- A column may leave out its table only if nothing is joined.
      have nojoins : s.joins = [] := covers e he none hq
      have labels := labels_joinClauses hj
      rw [nojoins, List.map_nil] at labels
      exact hne (List.map_eq_nil_iff.1 labels)
    · obtain ⟨i, hi⟩ := List.mem_iff_getElem?.1 hmem
      obtain ⟨label, hlabel, -⟩ := atHand_joinClause linked hj hi hq
      cases hlabel
    · rw [bounds e he] at hq
      cases hq

theorem scoped_buildSelect (h : c.buildSelect root f = .ok built) :
    built.Scoped root.tableName := by
  obtain ⟨s, condition, orderBy, joins, hs, hc, ho, hj, rfl⟩ := buildSelect_eq_ok.1 h
  have linked := planned_linked hs
  refine scoped_select linked hj (fun e he => ?_) (fun e he => ?_)
  · simp only [List.mem_append, Option.mem_toList] at he
    obtain (((he | he) | he) | he) := he
    · exact covers_selectionColumns he
    · exact covers_condition linked hc he
    · split_ifs at he
      · exact covers_idColumns he
      · cases he
    · obtain ⟨o, ho', rfl⟩ := List.mem_map.1 he
      obtain ⟨key, hkey⟩ := mem_orderItems ho ho'
      exact covers_orderExpr linked hkey
  · obtain he | he := List.mem_append.1 he
    · exact qualifiers_boundExpr (Option.mem_toList.1 he)
    · exact qualifiers_boundExpr (Option.mem_toList.1 he)

theorem scoped_buildCount (h : c.buildCount root f = .ok built) :
    built.counted.Scoped root.tableName := by
  obtain ⟨s, condition, hs, hc, ⟨hnone, rfl⟩ | ⟨joins, hj, -, rfl⟩⟩ := buildCount_cases h
  · have linked := planned_linked hs
    have hj : c.registry.joinClauses s = .ok [] := by
      rw [Registry.joinClauses, hnone]
      rfl
    refine scoped_select linked hj (fun e he => ?_) (by simp)
    simp only [List.append_nil, List.map_nil, List.mem_append, Option.mem_toList,
      List.mem_singleton] at he
    obtain rfl | he := he
    · intro q hq
      cases hq
    · exact covers_condition linked hc he
  · have linked := planned_linked hs
    refine scoped_select linked hj (fun e he => ?_) (by simp)
    simp only [List.map_nil, List.append_nil, List.mem_append, Option.mem_toList] at he
    obtain ((he | he) | he) := he
    · split_ifs at he
      · exact List.mem_singleton.1 he ▸ covers_all
      · exact covers_idColumns he
    · exact covers_condition linked hc he
    · exact covers_idColumns he

/-- Whatever a filter asks for, every column of its statement, and of the statement whose rows are
counted, is of a table at hand, and none is ambiguous. -/
theorem columns_scoped (c : Compiler) (root : Entity) (f : Filter) :
    (∀ built, c.buildSelect root f = .ok built → built.Scoped root.tableName) ∧
      ∀ built, c.buildCount root f = .ok built → built.counted.Scoped root.tableName :=
  ⟨fun _ h => scoped_buildSelect h, fun _ h => scoped_buildCount h⟩

/-- Transports with a cargo of several kinds, and with drivers by way of shifts. -/
def depots : Compiler where
  registry := ⟨.ofList [
    { name := "Transport", properties := [{ name := "id", isId := true }],
      relations := .ofList [
        ("cargo", .direct ⟨.belongsTo, "Parcel", none, none, some ⟨none⟩⟩),
        ("drivers", .through ⟨"Driver", none, none, ⟨"Shift", none, none, none⟩⟩)] },
    { name := "Parcel", properties := [{ name := "id", isId := true }, { name := "title" }] },
    { name := "Driver", properties := [{ name := "id", isId := true }, { name := "name" }] },
    { name := "Shift" }]⟩

/-- A filter that joins all of them. -/
def depotFilter : Filter where
  condition := some (.obj [("cargo(Parcel).title", .str "books"), ("id", .num (.int 1))])
  order := some (.one "drivers.name")

theorem columns_scoped_depots : ∃ root built counting,
    depots.registry.entity? "Transport" = some root ∧
    depots.buildSelect root depotFilter = .ok built ∧
    built.joins.map (·.label) = [some "t_0_0_parcel", some "t_1_0_shift", some "t_1_0_driver"] ∧
    built.Scoped "transport" ∧
    depots.buildCount root depotFilter = .ok counting ∧
    counting.counted.joins.map (·.label) = [some "t_0_0_parcel"] ∧
    counting.counted.Scoped "transport" := by
  have outcome : (depots.registry.entity? "Transport").map (fun root => (root.tableName,
      (depots.buildSelect root depotFilter).map fun s => s.joins.map (·.label),
      (depots.buildCount root depotFilter).map fun s => s.counted.joins.map (·.label))) =
      some ("transport", .ok [some "t_0_0_parcel", some "t_1_0_shift", some "t_1_0_driver"],
        .ok [some "t_0_0_parcel"]) := by
    decide +kernel
  obtain ⟨root, hroot, h⟩ := Option.map_eq_some_iff.1 outcome
  simp only [Prod.mk.injEq] at h
  obtain ⟨hname, hs, hc⟩ := h
  obtain ⟨built, hbuilt, hs⟩ := map_eq_ok.1 hs
  obtain ⟨counting, hcounting, hc⟩ := map_eq_ok.1 hc
  have both := columns_scoped depots root depotFilter
  rw [hname] at both
  exact ⟨root, built, counting, hroot, hbuilt, hs, both.1 built hbuilt, hcounting, hc,
    both.2 counting hcounting⟩

end Compiler

end FilterSql
