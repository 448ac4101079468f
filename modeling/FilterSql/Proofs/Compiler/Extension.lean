import FilterSql.Proofs.Compiler.Counting
import FilterSql.Proofs.Plan.Entities
import FilterSql.Proofs.Plan.Extension

/-!
# Compiling over more entities

A plan over a registry names entities of that registry only, so whatever is made of it is the same
over a registry that has one more.  With `Registry.Extends.plan` this says that an entity that is
added does not change what filters compile to, unless they want just this entity
(`Compiler.extension_conservative`).
-/

namespace FilterSql

open Sql

namespace Registry.Extends

variable {g g' : Registry} {name : String} {s : Session}

theorem entity_eq (h : g.Extends name g') {n : String} (hn : ∃ e, g.entity? n = some e) :
    g'.entity n = g.entity n := by
  obtain ⟨e, he⟩ := hn
  rw [entity_eq_ok.2 he, entity_eq_ok.2 (h.entity? he)]

/-- Keys stand for the same. -/
theorem view (h : g.Extends name g') (hs : s.Grounded g) (root : Entity) (operators : Operators) :
    View.Same ⟨g', root, s, operators⟩ ⟨g, root, s, operators⟩ where
  operators := rfl
  resolves key := by
    unfold View.resolveKey
    dsimp only
    split_ifs
    · rfl
    · rfl
    · split
      · rename_i hp
        rw [h.entity_eq (hs.endpoint .condition key _ hp)]
      · rfl

theorem orderItems (h : g.Extends name g') (hs : s.Grounded g) (root : Entity)
    (order : List String) :
    FilterSql.orderItems g' root s order = FilterSql.orderItems g root s order := by
  have expr (key : String) : orderExpr g' root s key = orderExpr g root s key := by
    unfold orderExpr
    split
    · rename_i hp
      rw [h.entity_eq (hs.endpoint .order key _ hp)]
    · rfl
    · rfl
  induction order with
  | nil => rfl
  | cons entry rest ih =>
    unfold FilterSql.orderItems
    cases orderWords entry with
    | nil => exact ih
    | cons key directions =>
      dsimp only
      rw [expr key, ih]

theorem joinClauses (h : g.Extends name g') (hs : s.Grounded g) :
    g'.joinClauses s = g.joinClauses s := by
  refine mapM_congr fun j hj => ?_
  unfold joinClause
  rw [h.entity_eq (hs.parent j hj), h.entity_eq (hs.target j hj)]

end Registry.Extends

namespace Compiler

variable {c : Compiler} {g' : Registry} {name : String} {root : Entity}

/-- The compiler over another registry. -/
def withRegistry (c : Compiler) (g : Registry) : Compiler := { c with registry := g }

/-- A plan over the smaller registry is one over the other, and names only entities of the smaller
one. -/
theorem extends_planned (h : c.registry.Extends name g')
    (hroot : c.registry.entity? root.name = some root) (clause : Option Members)
    (order : List String) :
    SameUnless (CompileError.Misses name) (c.planned root clause order)
        ((c.withRegistry g').planned root clause order) ∧
      ∀ s, c.planned root clause order = .ok s → s.Grounded c.registry := by
  constructor
  · unfold planned withRegistry
    obtain ⟨e, he, hmissed⟩ | same := h.plan root clause order {}
    · generalize Session.plan c.registry root clause order {} = outcome at he
      obtain ⟨s, r⟩ := outcome
      obtain rfl : r = .error e := he
      exact .error hmissed _
    · dsimp only
      rw [same]
      exact .same _
  · exact fun s hs => (planned_reached hs).grounded hroot

/-- Conditions under a plan over the smaller registry are the same over the other. -/
theorem extends_condition (h : c.registry.Extends name g') {s : Session}
    (hs : s.Grounded c.registry) (root : Entity) (clause : Option Members) :
    (c.withRegistry g').condition root s clause = c.condition root s clause :=
  (h.view hs root c.operators).compile clause

theorem extends_buildSelect (h : c.registry.Extends name g')
    (hroot : c.registry.entity? root.name = some root) (f : Filter) :
    SameUnless (CompileError.Misses name) (c.buildSelect root f)
      ((c.withRegistry g').buildSelect root f) := by
  obtain ⟨planned, grounded⟩ := extends_planned h hroot f.conditions? (f.effectiveOrder root)
  refine planned.bind fun s hs => ?_
  have orderBy := h.orderItems (grounded s hs) root (f.effectiveOrder root)
  have joins := h.joinClauses (grounded s hs)
  rw [extends_condition h (grounded s hs), withRegistry]
  dsimp only
  rw [orderBy, joins]
  exact .same _

theorem extends_buildCount (h : c.registry.Extends name g')
    (hroot : c.registry.entity? root.name = some root) (f : Filter) :
    SameUnless (CompileError.Misses name) (c.buildCount root f)
      ((c.withRegistry g').buildCount root f) := by
  obtain ⟨planned, grounded⟩ := extends_planned h hroot f.conditions? []
  refine planned.bind fun s hs => ?_
  have joins := h.joinClauses (grounded s hs)
  rw [extends_condition h (grounded s hs), withRegistry]
  dsimp only
  rw [joins]
  exact .same _

/-- An entity can be added under any new name.  Every filter then has the same statements as before,
or fails with the same error, unless it failed because there was no such entity. -/
theorem extension_conservative (c : Compiler) (e : Entity)
    (h : c.registry.contains e.name = false) : ∃ g, c.registry.register e = .ok g ∧
      (∀ entity f, SameUnless (CompileError.Misses e.name) (c.select entity f)
        ((c.withRegistry g).select entity f)) ∧
      ∀ entity clause, SameUnless (CompileError.Misses e.name) (c.count entity clause)
        ((c.withRegistry g).count entity clause) := by
  obtain ⟨g, hg, more⟩ := Registry.exists_register h
  have registered {entity : String} {root : Entity}
      (hroot : CompileError.ofSchema (c.registry.entity entity) = .ok root) :
      c.registry.entity? root.name = some root := by
    have found := Registry.entity_eq_ok.1 (ofSchema_eq_ok.1 hroot)
    rwa [Registry.name_of_entity? found]
  refine ⟨g, hg, fun entity f => ?_, fun entity clause => ?_⟩
  · refine (more.entity entity).ofSchema.bind fun root hroot => ?_
    exact (extends_buildSelect more (registered hroot) f).bind fun _ _ => .same _
  · refine (more.entity entity).ofSchema.bind fun root hroot => ?_
    exact (extends_buildCount more (registered hroot) _).bind fun _ _ => .same _

/-- Warehouses, to which transports belong. -/
def warehouse : Entity where
  name := "Warehouse"
  properties := [{ name := "id", isId := true }]
  relations := .ofList [("transports", .direct ⟨.hasMany, "Transport", none, none, none⟩)]

theorem extension_conservative_depots : depots.registry.contains warehouse.name = false ∧
    ∃ g fetched counted, depots.registry.register warehouse = .ok g ∧
      depots.select "Transport" depotPage = .ok fetched ∧
      (depots.withRegistry g).select "Transport" depotPage = .ok fetched ∧
      depots.count "Transport" depotPage.condition = .ok counted ∧
      (depots.withRegistry g).count "Transport" depotPage.condition = .ok counted ∧
      depots.select "Warehouse" {} = .error (.schema (.unknownEntity "Warehouse")) ∧
      ∃ found, (depots.withRegistry g).select "Warehouse" {} = .ok found := by
  have absent : depots.registry.contains warehouse.name = false := by decide +kernel
  obtain ⟨g, hg, selects, counts⟩ := extension_conservative depots warehouse absent
  have built : ((depots.select "Transport" depotPage).map fun _ => ()) = .ok () ∧
      ((depots.count "Transport" depotPage.condition).map fun _ => ()) = .ok () ∧
      ((depots.select "Warehouse" {}).map fun _ => ()) =
        .error (.schema (.unknownEntity "Warehouse")) := by decide +kernel
  have extended : (depots.registry.register warehouse).map (fun g =>
      ((depots.withRegistry g).select "Warehouse" {}).map fun _ => ()) = .ok (.ok ()) := by
    decide +kernel
  rw [hg] at extended
  obtain ⟨fetched, hfetched, -⟩ := map_eq_ok.1 built.1
  obtain ⟨counted, hcounted, -⟩ := map_eq_ok.1 built.2.1
  obtain ⟨found, hfound, -⟩ := map_eq_ok.1 (Except.ok.inj extended)
  exact ⟨absent, g, fetched, counted, hg, hfetched, (selects _ _).eq_ok hfetched, hcounted,
    (counts _ _).eq_ok hcounted, map_eq_error.1 built.2.2, found, hfound⟩

end Compiler

end FilterSql
