import FilterSql.Proofs.Compiler.Ordering
import FilterSql.Proofs.Compiler.Tags
import FilterSql.Proofs.Plan.Coverage

/-!
# Orders of grouped statements

With joins a statement groups its rows by the identifier of the root, which tells the columns of the
root and no others.  Nevertheless an order by a key that goes on to a property along relations reads
that property in the table of a join; an order by any other key reads the root
(`orders_of_grouped`).
-/

namespace FilterSql

open Sql

variable {g : Registry} {root : Entity} {s s' : Session} {key rest : String}

/-- What an order by a key reads under a plan: a property in the table of the join of its path, if
the key goes on to it along relations that can be joined; otherwise what the key stands for in the
table of the root. -/
inductive Sorts (g : Registry) (root : Entity) (s : Session) (key : String) : Expr → Prop
  | root (h : ∀ rest, ¬ Session.Joinable g root key rest) :
    Sorts g root s key (root.keyExpr (some root.tableName) key)
  | joined {chain : List Segment} {name rest : String} {j : Join} {entity : Entity}
    (hchain : Chain.ofKey g root key = .ok (.property chain name rest))
    (h : Session.Joinable g root key rest) (hj : s.join? (chainPath root chain) = some j)
    (hentity : g.entity? j.target = some entity) :
    Sorts g root s key (entity.keyExpr (some j.label) rest)

/-- The keys of the order that a filter means for an entity, those of its entries that have one. -/
def Filter.effectiveKeys (f : Filter) (root : Entity) : List String :=
  (f.effectiveOrder root).filterMap fun entry => (orderWords entry).head?

namespace Session

/-- A key that can be joined arrives somewhere as soon as it is planned. -/
theorem Joinable.endpoint?_planKeys {scope : Scope} {keys : List String}
    (hj : Joinable g root key rest)
    (hkeys : Session.planKeys g root scope s keys = (s', .ok ()))
    (h : key ∈ keys ∨ (s.endpoint? scope key).isSome = true) :
    (s'.endpoint? scope key).isSome = true := by
  induction keys generalizing s with
  | nil =>
    obtain rfl := (Prod.mk.inj hkeys).1
    exact h.resolve_left List.not_mem_nil
  | cons k keys ih =>
    obtain ⟨s₁, hkey, hkeys⟩ := planKeys_cons_eq_ok.1 hkeys
    refine ih hkeys ?_
    by_cases now : k = key
    · subst now
      obtain ⟨chain, anchor, s₂, -, rfl⟩ := hj.planKey hkey
      right
      rw [endpoint?_setEndpoint, if_pos ⟨rfl, rfl⟩]
      rfl
    · rw [endpoint?_planKey hkey fun same => now same.2]
      exact h.imp_left fun hmem => (List.mem_cons.1 hmem).resolve_left (Ne.symm now)

/-- A key of an order that can be joined arrives somewhere. -/
theorem Joinable.endpoint?_plan {clause : Option Members} {order : List String} {entry : String}
    (hj : Joinable g root (orderKey entry) rest)
    (h : Session.plan g root clause order {} = (s, .ok ())) (hentry : entry ∈ order) :
    (s.endpoint? .order (orderKey entry)).isSome = true := by
  obtain ⟨-, s₁, -, -, horder⟩ := plan_eq_ok.1 h
  have crosses : root.isRelationKey (orderKey entry) = true := by
    obtain ⟨chain, name, hops, hof, -⟩ := hj
    exact Chain.isRelationKey_of_ofKey hof
  exact hj.endpoint?_planKeys horder
    (.inl (List.mem_filter.2 ⟨List.mem_map_of_mem hentry, crosses⟩))

/-- Only keys that can be joined arrive at a property, and they do so at the join of their path. -/
theorem Reached.joinable (h : Reached g root s) {scope : Scope} {p : Endpoint}
    (hp : s.endpoint? scope key = some p) (hproperty : p.property = some rest) :
    Joinable g root key rest ∧ ∃ chain name j,
      Chain.ofKey g root key = .ok (.property chain name rest) ∧
      s.join? (chainPath root chain) = some j ∧ j.label = p.label ∧ j.target = p.entity := by
  obtain ⟨x, c, j, hc, -, hsegments, hj, rfl⟩ := h.ends hp
  obtain ⟨c', hops, hc', -, hhops⟩ := h.exists_hops hp
  obtain rfl := Except.ok.inj (hc.symm.trans hc')
  rw [Crossing.path, ← hsegments] at hj
  cases c with
  | property chain name key =>
    obtain rfl := Option.some.inj hproperty
    exact ⟨⟨chain, name, hops, hc, hhops⟩, chain, name, j, hc, hj, rfl, rfl⟩
  | plain => cases hproperty
  | relations chain => cases hproperty

end Session

/-! ## What the items of an order read -/

namespace Compiler

variable {c : Compiler} {f : Filter} {built : Select}

/-- An order by a key of a plan reads the table of a join if the key can be joined, and that of the
root otherwise. -/
theorem sorts_orderExpr {clause : Option Members} {order : List String}
    (hs : c.planned root clause order = .ok s) {entry : String} (hentry : entry ∈ order) {e : Expr}
    (he : orderExpr c.registry root s (orderKey entry) = .ok e) :
    Sorts c.registry root s (orderKey entry) e := by
  cases hp : s.endpoint? .order (orderKey entry) with
  | none =>
    rw [orderExpr, hp] at he
    obtain rfl := Except.ok.inj he
    refine .root fun rest hjoinable => ?_
    have arrives := hjoinable.endpoint?_plan (planned_eq_ok.1 hs) hentry
    rw [hp] at arrives
    cases arrives
  | some p =>
    obtain ⟨stem, label, target, property⟩ := p
    rw [orderExpr, hp] at he
    cases property with
    | none => cases he
    | some rest =>
      obtain ⟨entity, hentity, he⟩ := bind_eq_ok.1 he
      obtain rfl := pure_eq_ok.1 he
      obtain ⟨hjoinable, chain, name, j, hchain, hj, rfl, rfl⟩ :=
        (planned_reached hs).joinable hp rfl
      exact .joined hchain hjoinable hj (Registry.entity_eq_ok.1 (ofSchema_eq_ok.1 hentity))

/-- A statement that fetches rows has a clause for each join of its plan, groups by the identifier
of the root if there are any, and is ordered by its keys in turn.  A key that goes on to a property
along relations that can be joined reads the table of the join of its path, any other reads a column
of the root or a text inside it. -/
theorem orders_of_grouped {entity : String} {st : Statement}
    (hroot : c.registry.entity? entity = some root) (h : c.select entity f = .ok st) :
    ∃ built s, c.buildSelect root f = .ok built ∧ st = built.render c.dialect ∧
      c.planned root f.conditions? (f.effectiveOrder root) = .ok s ∧
      List.Forall₂ (Session.Renders c.registry) s.joins built.joins ∧
      built.groupBy = (if built.joins = [] then [] else root.idColumns) ∧
      List.Forall₂ (fun key item => Sorts c.registry root s key item.expr)
        (f.effectiveKeys root) built.orderBy := by
  rw [select_eq hroot] at h
  obtain ⟨built, hbuilt, rfl⟩ := map_eq_ok.1 h
  obtain ⟨s, condition, orderBy, joins, hs, -, ho, hj, rfl⟩ := buildSelect_eq_ok.1 hbuilt
  have clauses := Session.renders_joinClauses hj
  refine ⟨_, s, hbuilt, rfl, hs, clauses, ?_, ?_⟩
  · have empty : s.joins = [] ↔ joins = [] := by
      rw [← List.length_eq_zero_iff, ← List.length_eq_zero_iff, clauses.length_eq]
    simp [Session.hasJoins, empty]
  · have keys : ∀ key ∈ f.effectiveKeys root,
        ∃ entry ∈ f.effectiveOrder root, orderKey entry = key := by
      intro key hkey
      obtain ⟨entry, hentry, hhead⟩ := List.mem_filterMap.1 hkey
      exact ⟨entry, hentry, by rw [orderKey, List.headD_eq_head?_getD, hhead]; rfl⟩
    have items := (List.forall₂_and_left _ _).2 ⟨keys, forall₂_orderItems ho⟩
    refine items.imp ?_
    rintro _ item ⟨⟨entry, hentry, rfl⟩, he⟩
    exact sorts_orderExpr hs hentry he

/-- An order by the titles of projects, and by identifiers after that. -/
def projectOrder : Filter := { order := some (.many ["projects.title desc", "id"]) }

/-- The order by the titles of projects compiles to a statement that groups its rows. -/
theorem bureau_groups : ∃ root ∈ bureau.registry.entity? "Org",
    root.tableName = "org" ∧ projectOrder.effectiveKeys root = ["projects.title", "id"] ∧
    (bureau.buildSelect root projectOrder).map (fun built =>
      (built.groupBy.map Expr.qualifiers, built.orderBy.map (·.expr.qualifiers))) =
        .ok ([[some "org"]], [[some "t_0_0_project"], [some "org"]]) := by
  decide +kernel

theorem orders_of_grouped_bureau : ∃ root st, bureau.registry.entity? "Org" = some root ∧
    bureau.select "Org" projectOrder = .ok st ∧
    projectOrder.effectiveKeys root = ["projects.title", "id"] ∧
    ∃ built s, bureau.buildSelect root projectOrder = .ok built ∧
      st = built.render bureau.dialect ∧
      bureau.planned root projectOrder.conditions? (projectOrder.effectiveOrder root) = .ok s ∧
      List.Forall₂ (Session.Renders bureau.registry) s.joins built.joins ∧
      built.groupBy = (if built.joins = [] then [] else root.idColumns) ∧
      List.Forall₂ (fun key item => Sorts bureau.registry root s key item.expr)
        (projectOrder.effectiveKeys root) built.orderBy := by
  obtain ⟨root, hroot, -, hkeys, hbuilt⟩ := bureau_groups
  obtain ⟨built, hbuilt, -⟩ := map_eq_ok.1 hbuilt
  have hst : bureau.select "Org" projectOrder = .ok (built.render bureau.dialect) := by
    rw [select_eq hroot, hbuilt]
    rfl
  exact ⟨root, _, hroot, hst, hkeys, orders_of_grouped hroot hst⟩

/-- The rows are grouped by the identifier of organizations, and ordered by a column of the table
of projects, which the identifier does not tell. -/
theorem orders_beyond_groups_bureau : ∃ root st built,
    bureau.registry.entity? "Org" = some root ∧ bureau.select "Org" projectOrder = .ok st ∧
    bureau.buildSelect root projectOrder = .ok built ∧ st = built.render bureau.dialect ∧
    built.groupBy ≠ [] ∧ root.tableName = "org" ∧
    ∃ item ∈ built.orderBy, item.expr.qualifiers = [some "t_0_0_project"] := by
  obtain ⟨root, hroot, htable, -, hbuilt⟩ := bureau_groups
  obtain ⟨built, hbuilt, hparts⟩ := map_eq_ok.1 hbuilt
  obtain ⟨hgroup, horder⟩ := Prod.mk.inj hparts
  have hst : bureau.select "Org" projectOrder = .ok (built.render bureau.dialect) := by
    rw [select_eq hroot, hbuilt]
    rfl
  have grouped : built.groupBy ≠ [] := by
    rintro hnil
    simp [hnil] at hgroup
  have reads : [some "t_0_0_project"] ∈ built.orderBy.map (·.expr.qualifiers) := by
    rw [horder]
    exact List.mem_cons_self
  obtain ⟨item, hitem, hqualifiers⟩ := List.mem_map.1 reads
  exact ⟨root, _, built, hroot, hst, hbuilt, rfl, grouped, htable, item, hitem, hqualifiers⟩

end Compiler

end FilterSql
