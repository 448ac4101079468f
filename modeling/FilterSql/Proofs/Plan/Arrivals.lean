import FilterSql.Proofs.Plan.Paths

/-!
# Where keys arrive

A key that crosses relations arrives at the join of its whole path (`Session.Reached.ends`).  Every
join of that path was planned for the last relation of the key, or is the table in between of
another relation (`Session.Reached.traced`).  The latter has the word `-` in its path, so a key
arrives at the entity that its chain leads to unless a relation before the last is called `-`
(`endpoints_arrive`); if one is, another table can take the place of the join
(`endpoint_misplaced_shops`).
-/

namespace FilterSql

/-- The join arrives at the end of the relation that is crossed, for which it was planned. -/
def Join.Lands (g : Registry) (root : Entity) (x : Crossing) (j : Join) : Prop :=
  ∃ owner hops anchor stem middle, g.reached? root x.before = some owner ∧
    g.resolve owner x.last.name x.last.tag = .ok hops ∧ anchor.path = chainPath root x.before ∧
    g.joinsAt anchor (x.path root) stem x.last hops = .ok (middle, j)

namespace Registry

variable {g : Registry}

/-- The last join of a relation is named for it, and leads to the entity that it resolved to. -/
theorem last_joinsAt {anchor : Anchor} {path stem : String} {segment : Segment} {hops : Hops}
    {middle : List Join} {last : Join}
    (h : g.joinsAt anchor path stem segment hops = .ok (middle, last)) :
    last.path = path ∧ last.relation = segment.name ∧ last.target = hops.last.entity := by
  obtain ⟨keys, rfl, -, hlast⟩ | ⟨table, target, half, rfl, -, -, hlast⟩ := joinsAt_cases h
  · obtain ⟨-, -, rfl⟩ := joinAt_eq_ok.1 hlast
    exact ⟨rfl, rfl, rfl⟩
  · obtain ⟨-, -, rfl⟩ := joinAt_eq_ok.1 hlast
    exact ⟨rfl, rfl, rfl⟩

theorem path_of_mem_middle {anchor : Anchor} {path stem : String} {segment : Segment} {hops : Hops}
    {middle : List Join} {last : Join}
    (h : g.joinsAt anchor path stem segment hops = .ok (middle, last)) {j : Join}
    (hj : j ∈ middle) : j.path = s!"{anchor.path}.-.{segment.text}" := by
  obtain ⟨keys, -, rfl, -⟩ | ⟨table, target, half, -, rfl, hhalf, -⟩ := joinsAt_cases h
  · cases hj
  · obtain rfl := List.mem_singleton.1 hj
    obtain ⟨-, -, rfl⟩ := joinAt_eq_ok.1 hhalf
    rfl

end Registry

namespace Join.Lands

variable {g : Registry} {root : Entity} {x : Crossing} {j : Join}

theorem relation (h : j.Lands g root x) : j.relation = x.last.name := by
  obtain ⟨owner, hops, anchor, stem, middle, -, -, -, hjoins⟩ := h
  exact (Registry.last_joinsAt hjoins).2.1

/-- The join leads to the entity at the end of the chain. -/
theorem target (h : j.Lands g root x) {last : Entity}
    (hlast : g.reached? root x.chain = some last) : j.target = last.name := by
  obtain ⟨owner, hops, anchor, stem, middle, howner, hres, -, hjoins⟩ := h
  obtain ⟨r, hr, -, hentity⟩ := Registry.resolve_cases hres
  rw [Crossing.chain, Registry.reached?_append, howner, Option.bind_some,
    Registry.reached?_cons_eq_some] at hlast
  obtain ⟨r', next, hr', hnext, hend⟩ := hlast
  obtain rfl := Option.some.inj (hr.symm.trans hr')
  obtain rfl : next = last := Option.some.inj hend
  rw [(Registry.last_joinsAt hjoins).2.2, hentity, Registry.name_of_entity? hnext]

end Join.Lands

namespace Session

variable {g : Registry} {root owner : Entity} {scope : Scope} {key : String} {s s' : Session}

/-! ## What joins were planned for -/

/-- Every join was planned for a relation of a legible chain: it arrives there, or is the table in
between. -/
def Traced (g : Registry) (root : Entity) (s : Session) : Prop :=
  ∀ j ∈ s.joins, ∃ x : Crossing, (∀ t ∈ x.chain, t.Legible) ∧
    (j.Lands g root x ∨ j.path = x.halfPath root)

/-- The chain ends at the table: at that of the root, or at that of the join of its path. -/
def EndsAt (root : Entity) (s : Session) (chain : List Segment) (anchor : Anchor) : Prop :=
  anchor.path = chainPath root chain ∧
    (chain ≠ [] → ∃ j, s.join? (chainPath root chain) = some j ∧ anchor = .ofJoin j)

/-- Joins that are found by their path stay so. -/
theorem join?_planHop {depth : Nat} {segment : Segment} {hops : Hops} {anchor anchor' : Anchor}
    (hop : planHop g root key depth segment hops anchor s = .ok anchor' s') {path : String}
    {j : Join} (h : s.join? path = some j) : s'.join? path = some j := by
  obtain ⟨-, -, rfl, -⟩ | ⟨stem, middle, last, -, -, -, rfl, -⟩ := planHop_cases hop
  · exact h
  · have drawn : s.draw.2.join? path = some j := h
    rw [join?_addJoins, drawn, Option.some_or]

/-- A relation arrives at the join of its path. -/
theorem arrives_planHop {depth : Nat} {segment : Segment} {hops : Hops} {anchor anchor' : Anchor}
    (hop : planHop g root key depth segment hops anchor s = .ok anchor' s') :
    ∃ j, s'.join? s!"{anchor.path}.{segment.text}" = some j ∧ anchor' = .ofJoin j := by
  obtain ⟨j, hj, rfl, rfl⟩ | ⟨stem, middle, last, hnone, -, hjoins, rfl, rfl⟩ := planHop_cases hop
  · exact ⟨j, hj, rfl⟩
  · refine ⟨last, ?_, rfl⟩
    have drawn : s.draw.2.join? s!"{anchor.path}.{segment.text}" = none := hnone
    rw [join?_addJoins, drawn, Option.none_or, find?_joinsAt hjoins]

theorem endsAt_root (root : Entity) (s : Session) : s.EndsAt root [] (.ofRoot root) :=
  ⟨rfl, fun hne => absurd rfl hne⟩

theorem EndsAt.planHop {depth : Nat} {done : List Segment} {segment : Segment} {hops : Hops}
    {anchor anchor' : Anchor} (h : s.EndsAt root done anchor)
    (hop : Session.planHop g root key depth segment hops anchor s = .ok anchor' s') :
    s'.EndsAt root (done ++ [segment]) anchor' := by
  have path : s!"{anchor.path}.{segment.text}" = chainPath root (done ++ [segment]) := by
    rw [h.1, chainPath_append_singleton]
  obtain ⟨j, hj, rfl⟩ := arrives_planHop hop
  rw [path] at hj
  exact ⟨(join?_eq_some hj).2, fun _ => ⟨j, hj, rfl⟩⟩

/-- The joins of a relation are planned for it. -/
theorem Traced.planHop {x : Crossing} {depth : Nat} {hops : Hops} {anchor anchor' : Anchor}
    (h : s.Traced g root) (hx : ∀ t ∈ x.chain, t.Legible)
    (howner : g.reached? root x.before = some owner)
    (hres : g.resolve owner x.last.name x.last.tag = .ok hops)
    (ha : anchor.path = chainPath root x.before)
    (hop : Session.planHop g root key depth x.last hops anchor s = .ok anchor' s') :
    s'.Traced g root := by
  obtain ⟨-, -, rfl, -⟩ | ⟨stem, middle, last, -, -, hjoins, rfl, -⟩ := planHop_cases hop
  · exact h
  intro j hj
  obtain hj | hj := List.mem_append.1 (show j ∈ s.joins ++ (middle ++ [last]) from hj)
  · exact h j hj
  refine ⟨x, hx, ?_⟩
  obtain hj | hj := List.mem_append.1 hj
  · right
    rw [Registry.path_of_mem_middle hjoins hj, ha]
    rfl
  · left
    obtain rfl := List.mem_singleton.1 hj
    have path : s!"{anchor.path}.{x.last.text}" = x.path root := by
      rw [ha, x.path_eq]
    exact ⟨owner, hops, anchor, stem, middle, howner, hres, ha, path ▸ hjoins⟩

/-! ## What endpoints say -/

/-- The key crosses the relation last, and the endpoint is the join of the whole path, with what is
left of the key. -/
def Ends (g : Registry) (root : Entity) (s : Session) (key : String) (x : Crossing)
    (p : Endpoint) : Prop :=
  ∃ c j, Chain.ofKey g root key = .ok c ∧ c ≠ .plain ∧ c.segments = x.chain ∧
    s.join? (x.path root) = some j ∧ p = ⟨j.stem, j.label, j.target, c.rest?⟩

theorem join?_planKey (h : planKey g root scope s key = .ok s') {path : String} {j : Join}
    (hj : s.join? path = some j) : s'.join? path = some j := by
  refine planKey_induct (I := fun t _ => t.join? path = some j)
    (fun ht hop => join?_planHop hop ht) ?_ h hj
  intro t anchor property ht
  rwa [join?, joins_setEndpoint]

/-- Planning a key traces its joins, and says that the key ends at the join of its path. -/
theorem Traced.planKey (h : s.Traced g root) (hkey : Session.planKey g root scope s key = .ok s') :
    s'.Traced g root ∧ (s'.endpoint? scope key = s.endpoint? scope key ∨
      ∃ x p, s'.endpoint? scope key = some p ∧ s'.Ends g root key x p) := by
  obtain rfl | ⟨c, hops, s₁, anchor, hc, hplain, hhops, hrun, rfl⟩ := planKey_cases hkey
  · exact ⟨h, .inl rfl⟩
  have legible := (Chain.ofKey_reached hc).1
  obtain ⟨traced, -, hends⟩ : s₁.Traced g root ∧ s₁.EndsAt root c.segments anchor := by
    refine planHops_along (I := fun done t a => t.Traced g root ∧ t.EndsAt root done a) ?_ hhops
      ⟨h, endsAt_root root s⟩ hrun
    intro done t owner hops s anchor s' anchor' hdone howner hres hI hhop
    obtain ⟨htraced, hat⟩ := hI
    exact ⟨htraced.planHop (x := ⟨done, t⟩) (fun u hu => legible u (hdone.subset hu)) howner hres
      hat.1 hhop, hat.planHop hhop⟩
  obtain ⟨segments, w, -, -, -, -, hne⟩ := Chain.walk_of_ofKey hc hplain
  obtain ⟨j, hj, rfl⟩ := hends hne
  have last : (Crossing.mk c.segments.dropLast (c.segments.getLast hne)).chain = c.segments :=
    List.dropLast_append_getLast hne
  refine ⟨fun k hk => traced k (by simpa using hk), .inr ⟨_, _, ?_, c, j, hc, hplain, last.symm, ?_,
    rfl⟩⟩
  · rw [endpoint?_setEndpoint, if_pos ⟨rfl, rfl⟩]
    rfl
  · rw [Crossing.path, last, join?, joins_setEndpoint]
    exact hj

theorem Reached.traced (h : Reached g root s) : s.Traced g root := by
  induction h with
  | fresh => simp [Traced]
  | key _ hkey ih => exact (ih.planKey hkey).1

/-- In all sessions that planning comes to, endpoints are the joins at the end of their keys. -/
theorem Reached.ends (h : Reached g root s) {p : Endpoint} (hp : s.endpoint? scope key = some p) :
    ∃ x, s.Ends g root key x p := by
  induction h generalizing scope key p with
  | fresh => cases scope <;> cases hp
  | @key scope' key' s₀ s₁ hs₀ hkey ih =>
    have kept {x : Crossing} {p : Endpoint} (hx : s₀.Ends g root key x p) :
        s₁.Ends g root key x p := by
      obtain ⟨c, j, hc, hplain, hsegments, hj, rfl⟩ := hx
      exact ⟨c, j, hc, hplain, hsegments, join?_planKey hkey hj, rfl⟩
    by_cases same : scope' = scope ∧ key' = key
    · obtain ⟨rfl, rfl⟩ := same
      obtain ⟨-, hold | ⟨x, p', hp', hends⟩⟩ := hs₀.traced.planKey hkey
      · obtain ⟨x, hx⟩ := ih (hold ▸ hp)
        exact ⟨x, kept hx⟩
      · obtain rfl := Option.some.inj (hp.symm.trans hp')
        exact ⟨x, hends⟩
    · obtain ⟨x, hx⟩ := ih ((endpoint?_planKey hkey same).symm.trans hp)
      exact ⟨x, kept hx⟩

/-- A key with an endpoint is a chain of relations with or without a property.  It arrives at the
join of its path, with what is left of the key; and unless a relation before the last is called `-`,
this is the join that was planned for the last relation, and leads to the entity that the walk along
the key ends at. -/
theorem endpoints_arrive (h : Reached g root s) {p : Endpoint}
    (hp : s.endpoint? scope key = some p) : ∃ segments w c j, ∃ x : Crossing,
      Segment.ofKey key = .ok segments ∧ walk g key root false none segments = .ok w ∧
      w.chain? root key = .ok c ∧ c ≠ .plain ∧ c.segments = w.chain ∧ x.chain = w.chain ∧
      s.join? (x.path root) = some j ∧ p = ⟨j.stem, j.label, j.target, c.rest?⟩ ∧
      ((∀ t ∈ x.before, t.text ≠ "-") → j.Lands g root x ∧ p.entity = w.last.name) := by
  obtain ⟨x, c, j, hc, hplain, hsegments, hj, rfl⟩ := h.ends hp
  obtain ⟨segments, w, hof, hw, hchain, hwalk, -⟩ := Chain.walk_of_ofKey hc hplain
  refine ⟨segments, w, c, j, x, hof, hw, hchain, hplain, hwalk.symm, hsegments ▸ hwalk.symm, hj,
    rfl, fun hdash => ?_⟩
  have legible : ∀ t ∈ x.chain, t.Legible := hsegments ▸ (Chain.ofKey_reached hc).1
  obtain ⟨hmem, hpath⟩ := join?_eq_some hj
  obtain ⟨y, hy, hlands | hhalf⟩ := h.traced j hmem
  · -- Both chains can be read back from the path.
    obtain rfl : x = y := by
      obtain ⟨owner, hops, anchor, stem, middle, -, -, -, hjoins⟩ := hlands
      exact Crossing.path_injective legible hy (hpath ▸ (Registry.last_joinsAt hjoins).1)
    refine ⟨hlands, hlands.target ?_⟩
    rw [← hsegments, ← hwalk]
    exact (walk_reached hw).1
  · -- The path of a table in between has a word that this path has not.
    refine absurd (hpath.symm.trans hhalf) (Crossing.path_ne_halfPath legible hy fun hmark => ?_)
    obtain ⟨t, ht, htext⟩ := List.mem_map.1 hmark
    exact hdash t ht (String.toList_inj.1 htext)

/-- Shops, which have tags by way of labels, and branches, which have notes.  The branches of a shop
are called `-`, and the notes of a branch `tags`. -/
def shops : Registry := ⟨.ofList [
  { name := "Shop", properties := [{ name := "id", isId := true }],
    relations := .ofList [
      ("tags", .through ⟨"Tag", none, none, ⟨"Label", none, none, none⟩⟩),
      ("-", .direct ⟨.hasMany, "Branch", none, none, none⟩)] },
  { name := "Branch", properties := [{ name := "id", isId := true }],
    relations := .ofList [("tags", .direct ⟨.hasMany, "Note", none, none, none⟩)] },
  { name := "Tag", properties := [{ name := "id", isId := true }, { name := "name" }] },
  { name := "Label", properties := [{ name := "text" }] },
  { name := "Note", properties := [{ name := "text" }] }]⟩

/-- Conditions on the tags of a shop, and on the notes of its branches. -/
def shopClause : Members := [("tags.name", .str "a"), ("-.tags.text", .str "b")]

theorem endpoints_arrive_shops : ∃ root s p, shops.entity? "Shop" = some root ∧
    Reached shops root s ∧ s.endpoint? .condition "tags.name" = some p ∧ p.entity = "Tag" ∧
    ∃ segments w c j, ∃ x : Crossing, Segment.ofKey "tags.name" = .ok segments ∧
      walk shops "tags.name" root false none segments = .ok w ∧
      w.chain? root "tags.name" = .ok c ∧ c ≠ .plain ∧ c.segments = w.chain ∧
      x.chain = w.chain ∧ s.join? (x.path root) = some j ∧
      p = ⟨j.stem, j.label, j.target, c.rest?⟩ ∧
      ((∀ t ∈ x.before, t.text ≠ "-") → j.Lands shops root x ∧ p.entity = w.last.name) := by
  have outcome : (shops.entity? "Shop").bind (fun root =>
      ((plan shops root shopClause [] {}).1.endpoint? .condition "tags.name").map (·.entity)) =
      some "Tag" := by decide +kernel
  obtain ⟨root, hroot, h⟩ := Option.bind_eq_some_iff.1 outcome
  obtain ⟨p, hp, hentity⟩ := Option.map_eq_some_iff.1 h
  have reached : Reached shops root (plan shops root shopClause [] {}).1 := Reached.fresh.plan _ _
  exact ⟨root, _, p, hroot, reached, hp, hentity, endpoints_arrive reached hp⟩

/-- The key `-.tags.text` leads to notes.  If the tags of shops are planned before, it arrives at
the labels between shops and tags. -/
theorem endpoint_misplaced_shops : ∃ root s p segments w, shops.entity? "Shop" = some root ∧
    plan shops root shopClause [] {} = (s, .ok ()) ∧ Reached shops root s ∧
    s.endpoint? .condition "-.tags.text" = some p ∧ Segment.ofKey "-.tags.text" = .ok segments ∧
    walk shops "-.tags.text" root false none segments = .ok w ∧
    p.entity = "Label" ∧ w.last.name = "Note" := by
  have outcome : (shops.entity? "Shop").bind (fun root =>
      (((plan shops root shopClause [] {}).1.endpoint? .condition "-.tags.text").map fun p =>
        ((plan shops root shopClause [] {}).2, p.entity,
          (Segment.ofKey "-.tags.text").bind fun segments =>
            (walk shops "-.tags.text" root false none segments).map fun w => w.last.name))) =
      some (.ok (), "Label", .ok "Note") := by decide +kernel
  obtain ⟨root, hroot, h⟩ := Option.bind_eq_some_iff.1 outcome
  obtain ⟨p, hp, h⟩ := Option.map_eq_some_iff.1 h
  obtain ⟨hplan, h⟩ := Prod.mk.inj h
  obtain ⟨hentity, h⟩ := Prod.mk.inj h
  obtain ⟨segments, hsegments, h⟩ := bind_eq_ok.1 h
  obtain ⟨w, hw, hlast⟩ := map_eq_ok.1 h
  exact ⟨root, _, p, segments, w, hroot, Prod.ext rfl hplan, Reached.fresh.plan _ _, hp, hsegments,
    hw, hentity, hlast⟩

end Session

end FilterSql
