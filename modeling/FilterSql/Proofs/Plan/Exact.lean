import FilterSql.Proofs.Plan.Obstacles

/-!
# Plans are exact

A plan that succeeds has the joins that its keys need and no others (`plan_exact`): for every
relation that a key crosses on a chain that can be joined, one join, with the join of the table in
between right before it if there is such a table.  However many keys cross the relation, and in
whatever order, it is planned once.
-/

namespace FilterSql

/-- The key crosses the relation, on a chain on which no relation is barred. -/
def Crossing.Needed (g : Registry) (root : Entity) (key : String) (x : Crossing) : Prop :=
  ∃ c, Chain.ofKey g root key = .ok c ∧ c ≠ .plain ∧ x.chain <+: c.segments ∧
    ∀ y : Crossing, y.chain <+: c.segments → ¬ y.Barred g root

/-! ## What is planned -/

namespace Session

/-- The joins of the session are those of the crossings, in their order. -/
structure Plans (g : Registry) (root : Entity) (xs : List Crossing) (s : Session) : Prop where
  paths : s.joins.map (·.path) = xs.flatMap fun x => x.paths g root
  legible : ∀ x ∈ xs, x.Legible
  nodup : xs.Nodup

variable {g : Registry} {root owner : Entity} {xs : List Crossing} {x : Crossing} {s s' : Session}

theorem plans_fresh (g : Registry) (root : Entity) : Plans g root [] {} :=
  ⟨rfl, by simp, List.nodup_nil⟩

theorem Plans.mem_iff (h : s.Plans g root xs) (hx : x.Legible) :
    x.path root ∈ s.joins.map (·.path) ↔ x ∈ xs := by
  rw [h.paths, List.mem_flatMap]
  constructor
  · rintro ⟨y, hy, hpath⟩
    rwa [Crossing.paths_disjoint hx (h.legible y hy) (x.path_mem_paths g root) hpath]
  · intro hmem
    exact ⟨x, hmem, x.path_mem_paths g root⟩

/-- The joins of a relation have the paths of its crossing. -/
theorem paths_joinsAt {anchor : Anchor} {stem : String} {hops : Hops} {middle : List Join}
    {last : Join} (howner : g.reached? root x.before = some owner)
    (hres : g.resolve owner x.last.name x.last.tag = .ok hops)
    (ha : anchor.path = chainPath root x.before)
    (h : g.joinsAt anchor (x.path root) stem x.last hops = .ok (middle, last)) :
    (middle ++ [last]).map (·.path) = x.paths g root ∧ last.path = x.path root := by
  obtain ⟨r, hr, kind, -⟩ := Registry.resolve_cases hres
  have relation : x.relation? g root = some r := by
    rw [Crossing.relation?, howner, Option.bind_some, hr]
  obtain ⟨keys, hhops, rfl, hlast⟩ | ⟨table, target, half, hhops, rfl, hhalf, hlast⟩ :=
    Registry.joinsAt_cases h
  · obtain ⟨-, -, rfl⟩ := Registry.joinAt_eq_ok.1 hlast
    obtain ⟨d, keys', rfl, -⟩ | ⟨t, table, target, -, hthrough⟩ := kind
    · exact ⟨by simp [Crossing.paths, relation], rfl⟩
    · rw [hhops] at hthrough
      cases hthrough
  · obtain ⟨-, -, rfl⟩ := Registry.joinAt_eq_ok.1 hlast
    obtain ⟨-, -, rfl⟩ := Registry.joinAt_eq_ok.1 hhalf
    obtain ⟨d, keys', -, hdirect⟩ | ⟨t, table', target', rfl, -⟩ := kind
    · rw [hhops] at hdirect
      cases hdirect
    · exact ⟨by simp [Crossing.paths, Crossing.halfPath, relation, ha], rfl⟩

/-- Planning a relation adds its crossing, unless it is planned already. -/
theorem Plans.planHop {key : String} {depth : Nat} {hops : Hops} {anchor anchor' : Anchor}
    (h : s.Plans g root xs) (hx : x.Legible) (howner : g.reached? root x.before = some owner)
    (hres : g.resolve owner x.last.name x.last.tag = .ok hops)
    (ha : anchor.path = chainPath root x.before)
    (hop : Session.planHop g root key depth x.last hops anchor s = .ok anchor' s') :
    ∃ ys, s'.Plans g root ys ∧ (∀ y, y ∈ ys ↔ y ∈ xs ∨ y = x) ∧ anchor'.path = x.path root := by
  have path : s!"{anchor.path}.{x.last.text}" = x.path root := by
    rw [ha, x.path_eq]
  have cases := planHop_cases hop
  rw [path] at cases
  obtain ⟨j, hj, rfl, rfl⟩ | ⟨stem, middle, last, hnone, -, hjoins, rfl, rfl⟩ := cases
  · -- The path is planned already, and tells its crossing.
    obtain ⟨hmem, hpath⟩ := join?_eq_some hj
    have planned : x ∈ xs := (h.mem_iff hx).1 (hpath ▸ List.mem_map_of_mem hmem)
    refine ⟨xs, h, fun y => ⟨.inl, ?_⟩, hpath⟩
    rintro (hy | rfl)
    · exact hy
    · exact planned
  · -- The path is new, so the crossing is, and its joins come last.
    have new : x ∉ xs := fun hmem => join?_eq_none.1 hnone ((h.mem_iff hx).2 hmem)
    obtain ⟨added, hlast⟩ := paths_joinsAt howner hres ha hjoins
    refine ⟨xs ++ [x], ⟨?_, ?_, ?_⟩, by simp, hlast⟩
    · have joins : (s.draw.2.addJoins (middle ++ [last])).joins =
          s.joins ++ (middle ++ [last]) := rfl
      rw [joins, List.map_append, added, h.paths, List.flatMap_append, List.flatMap_singleton]
    · intro y hy
      obtain hy | hy := List.mem_append.1 hy
      · exact h.legible y hy
      · exact List.mem_singleton.1 hy ▸ hx
    · exact List.nodup_append.2 ⟨h.nodup, List.nodup_singleton x, by grind⟩

/-- The crossings of a longer chain are those before, and the new one. -/
theorem chain_prefix_snoc {done : List Segment} {t : Segment} {y : Crossing} :
    y.chain <+: done ++ [t] ↔ y.chain <+: done ∨ y = ⟨done, t⟩ := by
  rw [List.prefix_concat_iff, or_comm]
  refine or_congr_right ⟨fun h => Crossing.eq_of_chain_eq h, ?_⟩
  rintro rfl
  rfl

/-- Planning a chain adds all its crossings. -/
theorem Plans.planHops {key : String} {chain : List Segment} {hops : List Hops} {anchor' : Anchor}
    (h : s.Plans g root xs) (hl : ∀ y : Crossing, y.chain <+: chain → y.Legible)
    (hhops : g.hops? root chain = .ok (some hops))
    (hrun : Session.planHops g root key 0 (.ofRoot root) (chain.zip hops) s = .ok anchor' s') :
    ∃ ys, s'.Plans g root ys ∧ ∀ y, y ∈ ys ↔ y ∈ xs ∨ y.chain <+: chain := by
  have along := planHops_along (I := fun done t a => a.path = chainPath root done ∧
    ∃ ys, t.Plans g root ys ∧ ∀ y, y ∈ ys ↔ y ∈ xs ∨ y.chain <+: done) ?_ hhops
    ⟨rfl, xs, h, fun y => by simp [Crossing.chain]⟩ hrun
  · exact along.2
  intro done t owner hops s anchor s' anchor' hdone howner hres hI hhop
  obtain ⟨ha, ys, hys, hmem⟩ := hI
  obtain ⟨zs, hzs, hmem', hpath⟩ := hys.planHop (x := ⟨done, t⟩) (hl _ hdone) howner hres ha hhop
  refine ⟨hpath, zs, hzs, fun y => ?_⟩
  rw [hmem', hmem, chain_prefix_snoc, or_assoc]

/-- The segments of a key's chain are words of a path. -/
theorem legible_crossing {key : String} {c : Chain} (hroot : g.entity? root.name = some root)
    (hdash : ∀ e ∈ g.entities.items, e.relation? "-" = none) (hc : Chain.ofKey g root key = .ok c)
    {x : Crossing} (hx : x.chain <+: c.segments) : x.Legible := by
  obtain ⟨legible, last, hreached⟩ := Chain.ofKey_reached hc
  refine ⟨fun t ht => legible t (hx.subset ht), fun hmark => ?_⟩
  obtain ⟨t, ht, htext⟩ := List.mem_map.1 hmark
  have parsed : Segment.ofChars? ['-'] = some t := htext ▸ (legible t (hx.subset ht)).parsed
  have name : t.name = "-" := by
    obtain rfl := Option.some.inj parsed
    rfl
  have registered : root ∈ g.entities.items := List.mem_of_find?_eq_some hroot
  obtain ⟨e, he, declared⟩ := Registry.declared_of_reached? hreached registered (hx.subset ht)
  exact declared (name ▸ hdash e he)

/-- Planning a key adds the crossings that it needs. -/
theorem Plans.planKey {scope : Scope} {key : String} (hroot : g.entity? root.name = some root)
    (hdash : ∀ e ∈ g.entities.items, e.relation? "-" = none) (h : s.Plans g root xs)
    (hkey : Session.planKey g root scope s key = .ok s') :
    ∃ ys, s'.Plans g root ys ∧ ∀ y, y ∈ ys ↔ y ∈ xs ∨ y.Needed g root key := by
  obtain ⟨c, hc, hcase⟩ := planKey_eq_ok.1 hkey
  have needed {y : Crossing} (hy : y.Needed g root key) : c ≠ .plain ∧ y.chain <+: c.segments ∧
      ∀ z : Crossing, z.chain <+: c.segments → ¬ z.Barred g root := by
    obtain ⟨c', hc', hy⟩ := hy
    obtain rfl := Except.ok.inj (hc.symm.trans hc')
    exact hy
  obtain ⟨hplain, rfl⟩ | ⟨hplain, hchain⟩ := hcase
  · refine ⟨xs, h, fun y => ⟨.inl, ?_⟩⟩
    rintro (hy | hy)
    · exact hy
    · exact absurd hplain (needed hy).1
  obtain ⟨-, last, hreached⟩ := Chain.ofKey_reached hc
  obtain ⟨hnone, rfl⟩ | ⟨hops, s₁, anchor, hsome, hrun, rfl⟩ := planChain_eq_ok.1 hchain
  · -- A chain that is given up crosses a barred relation, so the key needs nothing.
    obtain ⟨z, hz, hbarred⟩ := Crossing.barred_of_hops? hnone hreached
    refine ⟨xs, h, fun y => ⟨.inl, ?_⟩⟩
    rintro (hy | hy)
    · exact hy
    · exact absurd hbarred ((needed hy).2.2 z hz)
  · obtain ⟨ys, hys, hmem⟩ := h.planHops (fun y hy => legible_crossing hroot hdash hc hy) hsome hrun
    refine ⟨ys, ⟨?_, hys.legible, hys.nodup⟩, fun y => ?_⟩
    · rw [joins_setEndpoint]
      exact hys.paths
    · rw [hmem]
      refine or_congr_right ⟨fun hy => ?_, fun hy => (needed hy).2.1⟩
      exact ⟨c, hc, hplain, hy, fun z hz => Crossing.not_barred_of_hops? hsome hreached hz⟩

theorem Plans.planKeys {scope : Scope} {keys : List String}
    (hroot : g.entity? root.name = some root)
    (hdash : ∀ e ∈ g.entities.items, e.relation? "-" = none) (h : s.Plans g root xs)
    (hkeys : Session.planKeys g root scope s keys = (s', .ok ())) :
    ∃ ys, s'.Plans g root ys ∧ ∀ y, y ∈ ys ↔ y ∈ xs ∨ ∃ key ∈ keys, y.Needed g root key := by
  induction keys generalizing s xs with
  | nil =>
    obtain rfl := (Prod.mk.inj hkeys).1
    exact ⟨xs, h, by simp⟩
  | cons key keys ih =>
    obtain ⟨s₁, hkey, hkeys⟩ := planKeys_cons_eq_ok.1 hkeys
    obtain ⟨ys, hys, hmem⟩ := h.planKey hroot hdash hkey
    obtain ⟨zs, hzs, hmem'⟩ := ih hys hkeys
    refine ⟨zs, hzs, fun y => ?_⟩
    rw [hmem', hmem, List.exists_mem_cons_iff, or_assoc]

/-- The key asks for joins: it is forced or may cross relations, or an order begins with it. -/
def Asks (root : Entity) (clause : Option Members) (order : List String) (key : String) : Prop :=
  (∃ keys k, FilterKey.ofClause (clause.getD []) = .ok keys ∧ k ∈ keys ∧ k.key = key ∧
    (k.forced = true ∨ root.isRelationKey key = true)) ∨
  ∃ entry ∈ order, orderKey entry = key ∧ root.isRelationKey key = true

/-- The keys that ask for joins are those that are planned. -/
theorem asks_iff {clause : Option Members} {order keys : List String}
    (h : conditionKeys root (clause.getD []) = .ok keys) {key : String} :
    Asks root clause order key ↔ key ∈ keys ∨ key ∈ orderKeys root order := by
  obtain ⟨extracted, hextracted, rfl⟩ := map_eq_ok.1 h
  refine or_congr ?_ ?_
  · constructor
    · rintro ⟨extracted', k, hextracted', hk, rfl, hasks⟩
      obtain rfl := Except.ok.inj (hextracted.symm.trans hextracted')
      exact List.mem_map_of_mem (List.mem_filter.2 ⟨hk, by simpa using hasks⟩)
    · intro hkey
      obtain ⟨k, hk, rfl⟩ := List.mem_map.1 hkey
      obtain ⟨hk, hasks⟩ := List.mem_filter.1 hk
      exact ⟨extracted, k, hextracted, hk, rfl, by simpa using hasks⟩
  · rw [orderKeys, List.mem_filter, List.mem_map]
    constructor
    · rintro ⟨entry, hentry, hkey, hasks⟩
      exact ⟨⟨entry, hentry, hkey⟩, hasks⟩
    · rintro ⟨⟨entry, hentry, hkey⟩, hasks⟩
      exact ⟨entry, hentry, hkey, hasks⟩

/-- A plan that succeeds consists of the crossings that its keys need, each once, with the join of a
table in between right before the join that arrives. -/
theorem plan_exact {clause : Option Members} {order : List String}
    (hdash : ∀ e ∈ g.entities.items, e.relation? "-" = none)
    (hroot : g.entity? root.name = some root)
    (h : Session.plan g root clause order {} = (s, .ok ())) :
    ∃ crossings : List Crossing,
      (∀ x, x ∈ crossings ↔ ∃ key, Asks root clause order key ∧ x.Needed g root key) ∧
      s.joins.map (·.path) = crossings.flatMap (fun x => x.paths g root) ∧
      (s.joins.map (·.path)).Nodup := by
  obtain ⟨keys, s₁, hkeys, hconditions, horders⟩ := plan_eq_ok.1 h
  obtain ⟨xs, hxs, hmem⟩ := (plans_fresh g root).planKeys hroot hdash hconditions
  obtain ⟨ys, hys, hmem'⟩ := hxs.planKeys hroot hdash horders
  refine ⟨ys, fun x => ?_, hys.paths, ?_⟩
  · simp only [hmem', hmem, asks_iff hkeys, List.not_mem_nil, false_or, or_and_right, exists_or]
  · rw [hys.paths]
    exact Crossing.nodup_flatMap_paths hys.legible hys.nodup

/-- Organizations with projects, which have tags by way of labels, and with hidden accounts. -/
def organizations : Registry := ⟨.ofList [
  { name := "Org", properties := [{ name := "id", isId := true }],
    relations := .ofList [
      ("projects", .direct ⟨.hasMany, "Project", none, none, none⟩),
      ("accounts", .direct ⟨.hasMany, "Project", none, none, none⟩)],
    settings := { hiddenRelations := ["accounts"] } },
  { name := "Project", properties := [{ name := "id", isId := true }, { name := "title" }],
    relations := .ofList [("tags", .through ⟨"Tag", none, none, ⟨"Label", none, none, none⟩⟩)] },
  { name := "Tag", properties := [{ name := "id", isId := true }, { name := "name" }] },
  { name := "Label" }]⟩

/-- Two keys of conditions, the second of which is hidden. -/
def organizationClause : Members := [("projects.title", .str "a"), ("accounts.title", .str "b")]

theorem plan_exact_organizations : ∃ root s, organizations.entity? "Org" = some root ∧
    Session.plan organizations root organizationClause ["projects.tags.name"] {} = (s, .ok ()) ∧
    s.joins.map (·.path) = ["Org.projects", "Org.projects.-.tags", "Org.projects.tags"] ∧
    ∃ crossings : List Crossing,
      (∀ x, x ∈ crossings ↔ ∃ key, Asks root organizationClause ["projects.tags.name"] key ∧
        x.Needed organizations root key) ∧
      s.joins.map (·.path) = crossings.flatMap (fun x => x.paths organizations root) ∧
      (s.joins.map (·.path)).Nodup := by
  have outcome : (organizations.entity? "Org").map (fun root => (root.name,
      (Session.plan organizations root organizationClause ["projects.tags.name"] {}).map
        (fun s => s.joins.map (·.path)) id)) =
      some ("Org", ["Org.projects", "Org.projects.-.tags", "Org.projects.tags"], .ok ()) := by
    decide +kernel
  have unmarked : ∀ e ∈ organizations.entities.items, e.relation? "-" = none := by decide +kernel
  obtain ⟨root, hroot, h⟩ := Option.map_eq_some_iff.1 outcome
  obtain ⟨hname, h⟩ := Prod.mk.inj h
  have registered : organizations.entity? root.name = some root := by rw [hname, hroot]
  generalize hplan : Session.plan organizations root organizationClause ["projects.tags.name"] {} =
    planned at h
  obtain ⟨s, r⟩ := planned
  obtain ⟨hpaths, rfl⟩ := Prod.mk.inj h
  exact ⟨root, s, hroot, hplan, hpaths, plan_exact unmarked registered hplan⟩

end Session

end FilterSql
