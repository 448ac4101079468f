import FilterSql.Proofs.Compiler.Scope
import FilterSql.Proofs.Plan.Entities

/-!
# Columns of keys

A key with an endpoint in a plan is looked up in conditions and in orders.  Both look-ups know the
same endpoint (`Session.Reached.endpoint_unique`), but they prefer different columns: an order goes
to the joined table, a condition to the root as long as the root owns the key, that is, has a
property of the name of the key or of its first word.  So both read the same column unless the root
owns the key (`columns_agree`).  If it does, they may read different tables
(`columns_differ_shelves`).
-/

namespace FilterSql

open Sql

/-- Is the key, or what it begins with up to its first point, a property of the entity? -/
def Entity.owns (e : Entity) (key : String) : Bool :=
  e.hasProperty key || e.hasProperty ((Text.split (· == '.') key).headD key)

variable {g : Registry} {root : Entity} {s : Session} {key : String} {p q : Endpoint}

theorem Session.hasConditions_of_endpoint? (h : s.endpoint? .condition key = some p) :
    s.hasConditions = true := by
  obtain ⟨item, hitem, -⟩ := Option.map_eq_some_iff.1 h
  have mem : item ∈ s.conditions.items := List.mem_of_find?_eq_some hitem
  have nonempty : s.conditions.items ≠ [] := List.ne_nil_of_mem mem
  simpa [Session.hasConditions] using nonempty

/-! ## What keys stand for -/

namespace View

variable {w : View}

/-- As soon as a key arrives somewhere, columns of the root say their table. -/
theorem rootQualifier_of_endpoint? (h : w.session.endpoint? .condition key = some p) :
    w.rootQualifier = some w.root.tableName := by
  rw [rootQualifier, Session.hasConditions_of_endpoint? h, Bool.or_true, if_pos rfl]

/-- Conditions on keys that the root owns are about the root. -/
theorem resolveKey_of_owns (h : w.root.owns key = true) :
    w.resolveKey key = .ok (some (w.root.keyExpr w.rootQualifier key)) := by
  rw [resolveKey]
  by_cases property : w.root.hasProperty key = true
  · rw [if_pos property, Entity.keyExpr, if_pos property]
  have head : w.root.hasProperty ((Text.split (· == '.') key).headD key) = true := by
    simpa [Entity.owns, property] using h
  -- Without a point the first word would be the key.
  have point : key.toList.contains '.' = true := by
    by_contra none
    rw [List.contains_iff_mem] at none
    rw [Text.split, ← List.splitOn_eq_splitOnP, List.splitOn_eq_singleton none] at head
    exact property (by simpa using head)
  rw [if_neg property, if_pos (by rw [point, head]; rfl)]

/-- Conditions on other keys are about the table at which the key arrives. -/
theorem resolveKey_of_endpoint? {property : String} {entity : Entity}
    (howns : w.root.owns key = false) (h : w.session.endpoint? .condition key = some p)
    (hproperty : p.property = some property) (hentity : w.registry.entity? p.entity = some entity) :
    w.resolveKey key = .ok (some (entity.keyExpr (some p.label) property)) := by
  obtain ⟨hkey, hhead⟩ := Bool.or_eq_false_iff.1 howns
  obtain ⟨stem, label, name, _⟩ := p
  obtain rfl := hproperty
  rw [resolveKey, hkey, hhead, h]
  dsimp only
  rw [ofSchema_eq_ok.2 (Registry.entity_eq_ok.2 hentity), Bool.and_false]
  rfl

end View

/-- An order by a key with an endpoint is about the table at which the key arrives. -/
theorem orderExpr_of_endpoint? {property : String} {entity : Entity}
    (h : s.endpoint? .order key = some p) (hproperty : p.property = some property)
    (hentity : g.entity? p.entity = some entity) :
    orderExpr g root s key = .ok (entity.keyExpr (some p.label) property) := by
  obtain ⟨stem, label, name, _⟩ := p
  obtain rfl := hproperty
  rw [orderExpr, h]
  dsimp only
  rw [ofSchema_eq_ok.2 (Registry.entity_eq_ok.2 hentity)]
  rfl

/-! ## The same endpoint -/

/-- The endpoint of a key is told by the key and the joins. -/
theorem Session.Ends.unique {x y : Crossing} (hp : s.Ends g root key x p)
    (hq : s.Ends g root key y q) : p = q := by
  obtain ⟨c, j, hc, -, hx, hj, rfl⟩ := hp
  obtain ⟨c', j', hc', -, hy, hj', rfl⟩ := hq
  obtain rfl := Except.ok.inj (hc.symm.trans hc')
  have path : x.path root = y.path root := by
    rw [Crossing.path, Crossing.path, ← hx, hy]
  rw [path] at hj
  obtain rfl := Option.some.inj (hj.symm.trans hj')
  rfl

/-- Whatever was planned in between, a key arrives at the same place in all its uses. -/
theorem Session.Reached.endpoint_unique (h : Reached g root s) {scope scope' : Scope}
    (hp : s.endpoint? scope key = some p) (hq : s.endpoint? scope' key = some q) : p = q := by
  obtain ⟨x, hx⟩ := h.ends hp
  obtain ⟨y, hy⟩ := h.ends hq
  exact hx.unique hy

/-- A key that arrives at a property both as a condition and in an order arrives at the same one.
The order goes by its column, and so does the condition unless the root owns the key; then the
condition is about the property of the root. -/
theorem columns_agree (hroot : g.entity? root.name = some root) (h : Session.Reached g root s)
    (ops : Operators) (hp : s.endpoint? .condition key = some p)
    (hq : s.endpoint? .order key = some q) (hproperty : p.property.isSome = true) :
    p = q ∧ ∃ entity property, g.entity? p.entity = some entity ∧ p.property = some property ∧
      orderExpr g root s key = .ok (entity.keyExpr (some p.label) property) ∧
      View.resolveKey ⟨g, root, s, ops⟩ key = .ok (some (
        if root.owns key then root.keyExpr (some root.tableName) key
        else entity.keyExpr (some p.label) property)) := by
  obtain rfl := h.endpoint_unique hp hq
  obtain ⟨property, hproperty⟩ := Option.isSome_iff_exists.1 hproperty
  obtain ⟨entity, hentity⟩ := (h.grounded hroot).endpoint .condition key p hp
  refine ⟨rfl, entity, property, hentity, hproperty,
    orderExpr_of_endpoint? hq hproperty hentity, ?_⟩
  by_cases howns : root.owns key = true
  · rw [if_pos howns, View.resolveKey_of_owns howns, View.rootQualifier_of_endpoint? hp]
  · rw [if_neg howns]
    exact View.resolveKey_of_endpoint? (by simpa using howns) hp hproperty hentity

/-- Shelves, which have books and readers, and keep an account of the books in a property of the
same name. -/
def shelves : Registry := ⟨.ofList [
  { name := "Shelf",
    properties := [{ name := "id", isId := true }, { name := "books", type := .object }],
    relations := .ofList [
      ("books", .direct ⟨.hasMany, "Book", none, none, none⟩),
      ("readers", .direct ⟨.hasMany, "Reader", none, none, none⟩)] },
  { name := "Book", properties := [{ name := "title" }] },
  { name := "Reader", properties := [{ name := "name" }] }]⟩

/-- The plan of conditions on the books and the readers of a shelf, and of an order by both. -/
def shelfSession (root : Entity) : Session :=
  (Session.plan shelves root (some [("books.title", .str "a"), ("readers.name", .str "b")])
    ["books.title", "readers.name"] {}).1

/-- The keys of readers and of books arrive both in conditions and in orders.  The columns of the
key of books are of two tables. -/
theorem shelf_columns : ∃ root ∈ shelves.entity? "Shelf",
    root.name = "Shelf" ∧ root.owns "readers.name" = false ∧
    (∃ p ∈ (shelfSession root).endpoint? .condition "readers.name",
      ∃ _q ∈ (shelfSession root).endpoint? .order "readers.name",
        p.property.isSome = true ∧ p.label = "t_1_0_reader") ∧
    (∃ p ∈ (shelfSession root).endpoint? .condition "books.title",
      ∃ _q ∈ (shelfSession root).endpoint? .order "books.title", p.property = some "title") ∧
    (View.resolveKey ⟨shelves, root, shelfSession root, .standard⟩ "books.title").map
      (Option.map Expr.qualifiers) = .ok (some [some "shelf"]) ∧
    (orderExpr shelves root (shelfSession root) "books.title").map Expr.qualifiers =
      .ok [some "t_0_0_book"] := by
  decide +kernel

theorem columns_agree_shelves : ∃ root p q, shelves.entity? root.name = some root ∧
    Session.Reached shelves root (shelfSession root) ∧
    (shelfSession root).endpoint? .condition "readers.name" = some p ∧
    (shelfSession root).endpoint? .order "readers.name" = some q ∧ p.property.isSome = true ∧
    p.label = "t_1_0_reader" ∧ root.owns "readers.name" = false ∧
    p = q ∧ ∃ entity property, shelves.entity? p.entity = some entity ∧
      p.property = some property ∧
      orderExpr shelves root (shelfSession root) "readers.name" =
        .ok (entity.keyExpr (some p.label) property) ∧
      View.resolveKey ⟨shelves, root, shelfSession root, .standard⟩ "readers.name" = .ok (some (
        if root.owns "readers.name" then root.keyExpr (some root.tableName) "readers.name"
        else entity.keyExpr (some p.label) property)) := by
  obtain ⟨root, hroot, hname, howns, ⟨p, hp, q, hq, hproperty, hlabel⟩, -⟩ := shelf_columns
  have registered : shelves.entity? root.name = some root := by rw [hname, hroot]
  have reached : Session.Reached shelves root (shelfSession root) := Session.Reached.fresh.plan _ _
  exact ⟨root, p, q, registered, reached, hp, hq, hproperty, hlabel, howns,
    columns_agree registered reached .standard hp hq hproperty⟩

/-- A condition on the titles of books reads the account, and an order by them the books. -/
theorem columns_differ_shelves : ∃ root p column column', shelves.entity? "Shelf" = some root ∧
    Session.Reached shelves root (shelfSession root) ∧
    (shelfSession root).endpoint? .condition "books.title" = some p ∧
    (shelfSession root).endpoint? .order "books.title" = some p ∧ p.property = some "title" ∧
    View.resolveKey ⟨shelves, root, shelfSession root, .standard⟩ "books.title" =
      .ok (some column) ∧
    orderExpr shelves root (shelfSession root) "books.title" = .ok column' ∧
    column.qualifiers = [some "shelf"] ∧ column'.qualifiers = [some "t_0_0_book"] := by
  obtain ⟨root, hroot, -, -, -, ⟨p, hp, q, hq, hproperty⟩, hcolumn, hcolumn'⟩ := shelf_columns
  obtain ⟨_, hcolumn, h⟩ := map_eq_ok.1 hcolumn
  obtain ⟨column, rfl, hqualifiers⟩ := Option.map_eq_some_iff.1 h
  obtain ⟨column', hcolumn', hqualifiers'⟩ := map_eq_ok.1 hcolumn'
  have reached : Session.Reached shelves root (shelfSession root) := Session.Reached.fresh.plan _ _
  obtain rfl := reached.endpoint_unique hp hq
  exact ⟨root, p, column, column', hroot, reached, hp, hq, hproperty, hcolumn, hcolumn',
    hqualifiers, hqualifiers'⟩

end FilterSql
