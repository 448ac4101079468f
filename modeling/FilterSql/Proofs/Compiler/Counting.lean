import FilterSql.Proofs.Compiler.Scope

/-!
# Counting and fetching

An order by keys that may not cross relations plans nothing (`Entity.Plain.plan_eq`), and cannot
fail (`orderItems_of_none`).  So counting the rows of a filter with such an order fails as fetching
them does, and otherwise counts over the same tables under the same condition (`count_agrees`).
-/

namespace FilterSql

open Sql

variable {g : Registry} {root : Entity} {order : List String} {s s' : Session}

/-- None of the keys that the entries of the order begin with may cross relations. -/
def Entity.Plain (root : Entity) (order : List String) : Prop :=
  ∀ entry ∈ order, root.isRelationKey (orderKey entry) = false

/-- A plain order has no keys to plan. -/
theorem Entity.Plain.plan_eq (h : root.Plain order) (clause : Option Members) (s : Session) :
    Session.plan g root clause order s = Session.plan g root clause [] s := by
  have none : Session.orderKeys root order = [] := by
    rw [Session.orderKeys, List.filter_eq_nil_iff]
    intro key hkey
    obtain ⟨entry, hentry, rfl⟩ := List.mem_map.1 hkey
    simp [h entry hentry]
  unfold Session.plan
  rw [none, show Session.orderKeys root [] = [] from rfl]

namespace Session

theorem endpoint?_planKeys {scope scope' : Scope} {keys : List String} (hne : scope ≠ scope')
    (h : planKeys g root scope s keys = (s', .ok ())) (key : String) :
    s'.endpoint? scope' key = s.endpoint? scope' key := by
  induction keys generalizing s with
  | nil =>
    obtain rfl := (Prod.mk.inj h).1
    rfl
  | cons k keys ih =>
    obtain ⟨s₁, hkey, hkeys⟩ := planKeys_cons_eq_ok.1 h
    rw [ih hkeys, endpoint?_planKey hkey fun same => hne same.1]

/-- A plan without an order says nothing of where keys of an order arrive. -/
theorem endpoint?_plan_nil {clause : Option Members}
    (h : plan g root clause [] {} = (s, .ok ())) (key : String) :
    s.endpoint? .order key = none := by
  obtain ⟨keys, s₁, -, hconditions, horders⟩ := plan_eq_ok.1 h
  obtain rfl : s₁ = s := (Prod.mk.inj horders).1
  rw [endpoint?_planKeys (by decide) hconditions]
  rfl

end Session

/-- The item of an entry whose key stands for a property of the root. -/
def Entity.orderItem? (root : Entity) (entry : String) : Option OrderItem :=
  match orderWords entry with
  | [] => none
  | key :: directions =>
    some ⟨root.keyExpr (some root.tableName) key, some (Direction.ofName directions.head?)⟩

/-- Keys that arrive nowhere else are properties of the root, so an order by them cannot fail. -/
theorem orderItems_of_none (g : Registry) (root : Entity)
    (h : ∀ key, s.endpoint? .order key = none) (order : List String) :
    orderItems g root s order = .ok (order.filterMap root.orderItem?) := by
  induction order with
  | nil => rfl
  | cons entry rest ih =>
    unfold orderItems
    cases hwords : orderWords entry with
    | nil =>
      have item : root.orderItem? entry = none := by rw [Entity.orderItem?, hwords]
      rw [List.filterMap_cons_none item]
      exact ih
    | cons key directions =>
      have item : root.orderItem? entry = some ⟨root.keyExpr (some root.tableName) key,
          some (Direction.ofName directions.head?)⟩ := by rw [Entity.orderItem?, hwords]
      have expr : orderExpr g root s key = .ok (root.keyExpr (some root.tableName) key) := by
        rw [orderExpr, h key]
      rw [List.filterMap_cons_some item]
      exact bind_eq_ok.2 ⟨_, expr, bind_eq_ok.2 ⟨_, ih, rfl⟩⟩

namespace Compiler

variable {c : Compiler} {f : Filter}

/-- The statement counts over the tables of the other, joined and grouped in the same way, and under
the same condition. -/
structure CountsAs (counting selected : Select) : Prop where
  source : counting.counted.source = selected.source
  joins : counting.counted.joins = selected.joins
  condition : counting.counted.condition = selected.condition
  groupBy : counting.counted.groupBy = selected.groupBy
  /-- With joins the rows counted are those of an inner statement. -/
  inner : selected.joins ≠ [] →
    counting.source = some (.query counting.counted (some countedLabel))

/-- With an order of plain keys, counting and fetching go the same way. -/
theorem alike_build (h : root.Plain (f.effectiveOrder root)) :
    Alike CountsAs (c.buildCount root { condition := f.condition }) (c.buildSelect root f) := by
  have planned : c.planned root f.conditions? (f.effectiveOrder root) =
      c.planned root f.conditions? [] := by
    rw [Compiler.planned, Compiler.planned, h.plan_eq]
  unfold buildSelect buildCount
  dsimp only
  rw [planned]
  refine Alike.bind_same fun s hs => Alike.bind_same fun condition _ => ?_
  rw [orderItems_of_none c.registry root (Session.endpoint?_plan_nil (planned_eq_ok.1 hs))]
  cases hjoins : s.hasJoins with
  | true =>
    exact Alike.bind_same fun joins _ => .ok ⟨rfl, rfl, rfl, rfl, fun _ => rfl⟩
  | false =>
    have nothing : c.registry.joinClauses s = .ok [] := by
      have none : s.joins = [] := by simpa [Session.hasJoins] using hjoins
      rw [Registry.joinClauses, none]
      rfl
    rw [nothing]
    exact .ok ⟨rfl, rfl, rfl, rfl, fun hne => absurd rfl hne⟩

/-- The rows of a filter whose order has plain keys only can be counted if they can be fetched, with
the same error if not, and the statement that counts them counts over the tables of the other. -/
theorem count_agrees (c : Compiler) (entity : String) (f : Filter)
    (h : ∀ root, c.registry.entity? entity = some root → root.Plain (f.effectiveOrder root)) :
    Alike (fun counted fetched => ∃ root counting selected,
      c.registry.entity? entity = some root ∧
      c.buildCount root { condition := f.condition } = .ok counting ∧
      c.buildSelect root f = .ok selected ∧ counted = counting.render c.dialect ∧
      fetched = selected.render c.dialect ∧ CountsAs counting selected)
    (c.count entity f.condition) (c.select entity f) := by
  refine Alike.bind_same fun root hroot => ?_
  have registered := Registry.entity_eq_ok.1 (ofSchema_eq_ok.1 hroot)
  refine (alike_build (h root registered)).exact.bind ?_
  rintro counting selected ⟨hcount, hselect, agree⟩
  exact .ok ⟨root, counting, selected, registered, hcount, hselect, rfl, rfl, agree⟩

/-- A page of the transports of books by a driver, by their identifiers. -/
def depotPage : Filter where
  condition := some (.obj [("cargo(Parcel).title", .str "books"), ("drivers.name", .str "Ann")])
  order := some (.one "id desc")
  limit := some (.int 10)

theorem count_agrees_depots : ∃ counted fetched,
    (∀ root, depots.registry.entity? "Transport" = some root →
      root.Plain (depotPage.effectiveOrder root)) ∧
    depots.count "Transport" depotPage.condition = .ok counted ∧
    depots.select "Transport" depotPage = .ok fetched ∧
    ∃ root counting selected, depots.registry.entity? "Transport" = some root ∧
      depots.buildCount root { condition := depotPage.condition } = .ok counting ∧
      depots.buildSelect root depotPage = .ok selected ∧ counted = counting.render depots.dialect ∧
      fetched = selected.render depots.dialect ∧ CountsAs counting selected := by
  have keys : ∀ root ∈ depots.registry.entity? "Transport",
      ∀ entry ∈ depotPage.effectiveOrder root, root.isRelationKey (orderKey entry) = false := by
    decide +kernel
  have plain (root : Entity) (hroot : depots.registry.entity? "Transport" = some root) :
      root.Plain (depotPage.effectiveOrder root) := by
    intro entry hentry
    exact keys root hroot entry hentry
  have outcome : (depots.registry.entity? "Transport").map (fun root => (
      (depots.buildCount root { condition := depotPage.condition }).map fun s => s.joins.length,
      (depots.buildSelect root depotPage).map fun s => s.joins.length)) =
      some (.ok 0, .ok 3) := by decide +kernel
  obtain ⟨root, hroot, h⟩ := Option.map_eq_some_iff.1 outcome
  obtain ⟨hc, hs⟩ := Prod.mk.inj h
  obtain ⟨counting, hcounting, -⟩ := map_eq_ok.1 hc
  obtain ⟨selected, hselected, -⟩ := map_eq_ok.1 hs
  have hcount : depots.count "Transport" depotPage.condition =
      .ok (counting.render depots.dialect) := by
    rw [count_eq hroot, hcounting]
    rfl
  have hselect : depots.select "Transport" depotPage = .ok (selected.render depots.dialect) := by
    rw [select_eq hroot, hselected]
    rfl
  have agree := (count_agrees depots "Transport" depotPage plain).related hcount hselect
  exact ⟨_, _, plain, hcount, hselect, agree⟩

end Compiler

end FilterSql
