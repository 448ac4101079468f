import FilterSql.Proofs.Compiler.Placeholders
import FilterSql.Proofs.Compiler.Scope
import FilterSql.Proofs.Order.Entries
import FilterSql.Proofs.Plan.Atomic

/-!
# Orders by keys that are given up

Planning gives up a key that crosses a hidden relation, or one that cannot be joined.  In a
condition such a key stands for nothing.  In an order it is taken for a key of the root: leaving out
its entry leaves out one item of the ORDER BY clause, which reads a column of the table of the root,
and nothing else (`order_given_up`).
-/

namespace FilterSql

open Sql

/-! ## Entries -/

/-- Every entry of the order of a filter begins with a key. -/
theorem Filter.orderWords_of_mem {f : Filter} {entry : String} (h : entry ∈ f.orderEntries) :
    ∃ directions, orderWords entry = orderKey entry :: directions := by
  unfold orderEntries at h
  split at h
  · exact (OrderSpec.neat_of_mem_entries h).orderWords
  · cases h

/-! ## Keys that are given up -/

namespace Session

variable {g : Registry} {root : Entity} {scope : Scope} {key : String} {s s' : Session}

/-- In all sessions that planning comes to, a key that needs no joins arrives nowhere. -/
theorem Reached.endpoint?_of_skipped (h : Reached g root s) (hskipped : Skipped g root key) :
    s.endpoint? scope key = none := by
  cases hp : s.endpoint? scope key with
  | none => rfl
  | some p =>
    obtain ⟨c, hops, hc, hplain, hhops⟩ := h.exists_hops hp
    exact absurd hhops (hskipped.hops?_ne hc hplain hops)

/-- A key that needs no joins can be left out of a plan. -/
theorem Skipped.planKeys {before after : List String} (hskipped : Skipped g root key)
    (h : Session.planKeys g root scope s (before ++ key :: after) = (s', .ok ())) :
    Session.planKeys g root scope s (before ++ after) = (s', .ok ()) := by
  induction before generalizing s with
  | nil =>
    obtain ⟨s₁, hkey, hafter⟩ := planKeys_cons_eq_ok.1 h
    obtain rfl := hskipped.planKey hkey
    exact hafter
  | cons first before ih =>
    obtain ⟨s₁, hfirst, hrest⟩ := planKeys_cons_eq_ok.1 h
    exact planKeys_cons_eq_ok.2 ⟨s₁, hfirst, ih hrest⟩

/-- An entry of an order whose key needs no joins can be left out of a plan. -/
theorem Skipped.plan {clause : Option Members} {pre post : List String} {entry : String}
    (hskipped : Skipped g root (orderKey entry))
    (h : Session.plan g root clause (pre ++ entry :: post) s = (s', .ok ())) :
    Session.plan g root clause (pre ++ post) s = (s', .ok ()) := by
  obtain ⟨keys, s₁, hkeys, hconditions, horder⟩ := plan_eq_ok.1 h
  refine plan_eq_ok.2 ⟨keys, s₁, hkeys, hconditions, ?_⟩
  rw [orderKeys, List.map_append, List.filter_append] at horder ⊢
  rw [List.map_cons] at horder
  by_cases asks : root.isRelationKey (orderKey entry) = true
  · rw [List.filter_cons_of_pos asks] at horder
    exact hskipped.planKeys horder
  · rwa [List.filter_cons_of_neg asks] at horder

end Session

section

variable {g : Registry} {root : Entity} {s : Session} {pre post : List String}
  {items : List OrderItem}

theorem orderItems_append : orderItems g root s (pre ++ post) = .ok items ↔ ∃ before after,
    orderItems g root s pre = .ok before ∧ orderItems g root s post = .ok after ∧
    items = before ++ after := by
  induction pre generalizing items with
  | nil => simp [orderItems]
  | cons entry pre ih =>
    rw [List.cons_append, orderItems, orderItems]
    split
    · exact ih
    · simp only [bind_eq_ok, pure_eq_ok, ih]
      constructor
      · rintro ⟨e, he, _, ⟨before, after, hbefore, hafter, rfl⟩, rfl⟩
        exact ⟨_, after, ⟨e, he, before, hbefore, rfl⟩, hafter, rfl⟩
      · rintro ⟨_, after, ⟨e, he, before, hbefore, rfl⟩, hafter, rfl⟩
        exact ⟨e, he, _, ⟨before, after, hbefore, hafter, rfl⟩, rfl⟩

/-- An entry whose key arrives nowhere is an item of the root. -/
theorem orderItems_cons_of_none {entry : String} {directions : List String}
    (hwords : orderWords entry = orderKey entry :: directions)
    (h : s.endpoint? .order (orderKey entry) = none)
    (hitems : orderItems g root s (entry :: post) = .ok items) :
    ∃ after, orderItems g root s post = .ok after ∧
      items = ⟨root.keyExpr (some root.tableName) (orderKey entry),
        some (Direction.ofName directions.head?)⟩ :: after := by
  rw [orderItems, hwords] at hitems
  obtain ⟨e, he, hitems⟩ := bind_eq_ok.1 hitems
  obtain ⟨after, hafter, hitems⟩ := bind_eq_ok.1 hitems
  rw [orderExpr, h] at he
  obtain rfl := Except.ok.inj he
  exact ⟨after, hafter, (pure_eq_ok.1 hitems).symm⟩

end

namespace Compiler

variable {c : Compiler} {root : Entity} {f : Filter} {built : Select} {order : Option OrderSpec}
  {pre post : List String} {entry : String}

/-- Leaving out an entry whose key needs no joins leaves out one item of the ORDER BY clause, and
nothing else. -/
theorem buildSelect_skipped (h : c.buildSelect root f = .ok built)
    (horder : f.orderEntries = pre ++ entry :: post)
    (hskipped : Session.Skipped c.registry root (orderKey entry))
    (hrest : Filter.orderEntries { f with order } = pre ++ post) (hne : pre ++ post ≠ []) :
    ∃ before item after, built.orderBy = before ++ item :: after ∧
      item.expr = root.keyExpr (some root.tableName) (orderKey entry) ∧
      c.buildSelect root { f with order } = .ok { built with orderBy := before ++ after } := by
  obtain ⟨s, condition, orderBy, joins, hs, hc, ho, hj, rfl⟩ := buildSelect_eq_ok.1 h
  have effective : f.effectiveOrder root = pre ++ entry :: post := by
    rw [Filter.effectiveOrder, Filter.hasOrder, horder]
    simp
  have effective' : Filter.effectiveOrder { f with order } root = pre ++ post := by
    rw [Filter.effectiveOrder, Filter.hasOrder, hrest, if_pos (by simpa using hne)]
  rw [effective] at hs ho
  obtain ⟨directions, hwords⟩ : ∃ directions, orderWords entry = orderKey entry :: directions :=
    Filter.orderWords_of_mem (horder ▸ List.mem_append_right _ List.mem_cons_self)
  obtain ⟨before, rest, hbefore, hitems, rfl⟩ := orderItems_append.1 ho
  obtain ⟨after, hafter, rfl⟩ := orderItems_cons_of_none hwords
    ((planned_reached hs).endpoint?_of_skipped hskipped) hitems
  refine ⟨before, _, after, rfl, rfl, ?_⟩
  refine buildSelect_eq_ok.2 ⟨s, condition, before ++ after, joins, ?_, hc, ?_, hj, rfl⟩
  · rw [effective']
    exact planned_eq_ok.2 (hskipped.plan (planned_eq_ok.1 hs))
  · rw [effective']
    exact orderItems_append.2 ⟨before, after, hbefore, hafter, rfl⟩

/-- Items of an order bind nothing. -/
theorem values_orderBy {before after : List OrderItem} {item : OrderItem}
    (horder : built.orderBy = before ++ item :: after) (hitem : item.expr.values = []) :
    Select.values { built with orderBy := before ++ after } = built.values := by
  obtain ⟨columns, source, joins, condition, groupBy, orderBy, limit, offset⟩ := built
  obtain rfl := horder
  simp only [values_select, List.flatMap_append, List.flatMap_cons, hitem, List.nil_append]

/-- An entry of an order whose key crosses a hidden relation, or one that cannot be joined, is taken
for a key of the root: the statement without the entry has the same bindings, and the same text but
for one item of the ORDER BY clause, which reads a column of the table of the root. -/
theorem order_given_up {entity : String} {st : Statement} {chain : Chain} {x : Crossing}
    (hroot : c.registry.entity? entity = some root) (h : c.select entity f = .ok st)
    (horder : f.orderEntries = pre ++ entry :: post)
    (hchain : Chain.ofKey c.registry root (orderKey entry) = .ok chain)
    (hx : x.chain <+: chain.segments) (hbarred : x.Barred c.registry root)
    (hrest : Filter.orderEntries { f with order } = pre ++ post) (hne : pre ++ post ≠ []) :
    ∃ built before item after st', c.buildSelect root f = .ok built ∧
      st = built.render c.dialect ∧ built.orderBy = before ++ item :: after ∧
      item.expr = root.keyExpr (some root.tableName) (orderKey entry) ∧
      c.select entity { f with order } = .ok st' ∧
      st' = Select.render { built with orderBy := before ++ after } c.dialect ∧
      st'.bindings = st.bindings := by
  rw [select_eq hroot] at h
  obtain ⟨built, hbuilt, rfl⟩ := map_eq_ok.1 h
  obtain ⟨before, item, after, hitems, hitem, hbuilt'⟩ := buildSelect_skipped hbuilt horder
    (.inr ⟨chain, hchain, x, hx, hbarred⟩) hrest hne
  refine ⟨built, before, item, after, _, hbuilt, rfl, hitems, hitem, ?_, rfl, ?_⟩
  · rw [select_eq hroot, hbuilt']
    rfl
  · have values : item.expr.values = [] := hitem ▸ (root.reads_keyExpr _ _).values
    calc bindings (Select.pieces c.dialect { built with orderBy := before ++ after })
        = Select.values { built with orderBy := before ++ after } := Select.bindings_pieces _ _
      _ = built.values := values_orderBy hitems values
      _ = bindings (built.pieces c.dialect) := (Select.bindings_pieces _ _).symm

/-- A compiler for organizations, whose accounts are hidden. -/
def bureau : Compiler := { registry := Session.organizations }

/-- An order by the titles of hidden accounts, and by identifiers after that. -/
def accountOrder : Filter := { order := some (.many ["accounts.title", "id"]) }

/-- The relation that the order crosses. -/
def accountCrossing : Crossing := ⟨[], ⟨"accounts", none⟩⟩

theorem barred_accountCrossing {root : Entity} (h : root.isHidden "accounts" = true) :
    accountCrossing.Barred bureau.registry root := ⟨root, rfl, .inl h⟩

/-- The order by the titles of accounts compiles, and so does the order without them.  The chain of
`accounts.title` begins with a hidden relation, which is no property either. -/
theorem bureau_orders : ∃ root ∈ bureau.registry.entity? "Org",
    Chain.ofKey bureau.registry root "accounts.title" =
      .ok (.property [⟨"accounts", none⟩] "title" "title") ∧
    root.isHidden "accounts" = true ∧ root.hasProperty "accounts" = false ∧
    (bureau.select "Org" accountOrder).map (·.text) =
      .ok ("select \"org\".\"id\" from \"org\" " ++
        "order by \"org\".\"accounts\"->>'title' asc, \"org\".\"id\" asc") ∧
    (bureau.select "Org" { order := some (.many ["id"]) }).map (·.text) =
      .ok "select \"org\".\"id\" from \"org\" order by \"org\".\"id\" asc" := by
  decide +kernel

theorem order_given_up_bureau : ∃ root chain st, bureau.registry.entity? "Org" = some root ∧
    bureau.select "Org" accountOrder = .ok st ∧
    accountOrder.orderEntries = [] ++ "accounts.title" :: ["id"] ∧
    Chain.ofKey bureau.registry root (orderKey "accounts.title") = .ok chain ∧
    accountCrossing.chain <+: chain.segments ∧ accountCrossing.Barred bureau.registry root ∧
    Filter.orderEntries { accountOrder with order := some (.many ["id"]) } = [] ++ ["id"] ∧
    ∃ built before item after st', bureau.buildSelect root accountOrder = .ok built ∧
      st = built.render bureau.dialect ∧ built.orderBy = before ++ item :: after ∧
      item.expr = root.keyExpr (some root.tableName) (orderKey "accounts.title") ∧
      bureau.select "Org" { accountOrder with order := some (.many ["id"]) } = .ok st' ∧
      st' = Select.render { built with orderBy := before ++ after } bureau.dialect ∧
      st'.bindings = st.bindings := by
  have key : orderKey "accounts.title" = "accounts.title" := by decide
  have entries : accountOrder.orderEntries = [] ++ "accounts.title" :: ["id"] := by decide
  have rest : Filter.orderEntries { accountOrder with order := some (.many ["id"]) } =
      [] ++ ["id"] := by decide
  obtain ⟨root, hroot, hchain, hhidden, -, htext, -⟩ := bureau_orders
  obtain ⟨st, hst, -⟩ := map_eq_ok.1 htext
  rw [← key] at hchain
  have barred := barred_accountCrossing hhidden
  exact ⟨root, _, st, hroot, hst, entries, hchain, List.prefix_rfl, barred, rest,
    order_given_up hroot hst entries hchain List.prefix_rfl barred rest (by simp)⟩

/-- The key `accounts.title` is given up, and yet the statement is not the one without it: it orders
by a text in a column `accounts` that organizations do not have. -/
theorem order_misplaced_bureau : ∃ root chain st st',
    bureau.registry.entity? "Org" = some root ∧
    Chain.ofKey bureau.registry root "accounts.title" = .ok chain ∧
    accountCrossing.chain <+: chain.segments ∧ accountCrossing.Barred bureau.registry root ∧
    root.hasProperty "accounts" = false ∧
    bureau.select "Org" accountOrder = .ok st ∧
    bureau.select "Org" { order := some (.many ["id"]) } = .ok st' ∧
    st.text = "select \"org\".\"id\" from \"org\" " ++
      "order by \"org\".\"accounts\"->>'title' asc, \"org\".\"id\" asc" ∧
    st'.text = "select \"org\".\"id\" from \"org\" order by \"org\".\"id\" asc" := by
  obtain ⟨root, hroot, hchain, hhidden, hproperty, htext, htext'⟩ := bureau_orders
  obtain ⟨st, hst, htext⟩ := map_eq_ok.1 htext
  obtain ⟨st', hst', htext'⟩ := map_eq_ok.1 htext'
  exact ⟨root, _, st, st', hroot, hchain, List.prefix_rfl, barred_accountCrossing hhidden,
    hproperty, hst, hst', htext, htext'⟩

end Compiler

end FilterSql
