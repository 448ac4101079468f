import FilterSql.Proofs.Path.Resolution
import FilterSql.Proofs.Plan.Paths

/-!
# Obstacles on a chain

The relations of a key are walked twice: once along their targets, to tell where the key arrives, and
once more to find the joins for them.  The second walk visits the entities of the first, and stops at
the first relation that is in its way (`Crossing.First`): the key is given up there if the relation
is barred, that is hidden or a list of keys, and otherwise the plan fails, for want of an entity or
of a key (`SchemaError.Lacks`).  `Chain.hops_agree` says so for all keys.
-/

namespace FilterSql

/-! ## Relations that cannot be resolved -/

/-- What a relation of the owner lacks: its target, or the table in between, is no entity of the
schema, or a key has no default. -/
inductive SchemaError.Lacks (g : Registry) (owner : Entity) (relation : String) : SchemaError → Prop
  | target {target : String} (h : g.entity? target = none) :
    Lacks g owner relation (.unregisteredTarget owner.name relation target)
  | key (side : KeySide) : Lacks g owner relation (.missingKey owner.name relation side)

namespace Registry

variable {g : Registry} {owner : Entity} {relation : String}

theorem lacks_targetOf (g : Registry) (owner : Entity) (relation target : String) :
    FailsOnly (SchemaError.Lacks g owner relation) (g.targetOf owner relation target) := by
  unfold targetOf
  split
  · exact .ok _
  · rename_i h
    exact .error (.target h)

theorem lacks_keyOrId (owner : Entity) (relation : String) (side : KeySide)
    (declared : Option String) (e : Entity) :
    FailsOnly (SchemaError.Lacks g owner relation) (keyOrId owner relation side declared e) := by
  unfold keyOrId
  split
  · exact .ok _
  · exact .ok _
  · exact .error (.key side)

theorem lacks_resolveDirect {tag : Option String} {d : DirectRelation}
    (h : d.kind ≠ .referencesMany) :
    FailsOnly (SchemaError.Lacks g owner relation) (g.resolveDirect owner relation tag d) := by
  unfold resolveDirect
  rw [if_neg h]
  refine (g.lacks_targetOf owner relation (tag.getD d.target)).bind fun target _ => ?_
  dsimp only
  split
  · exact (lacks_keyOrId owner relation .keyTo d.keyTo target).bind fun _ _ => .ok _
  · exact (lacks_keyOrId owner relation .keyFrom d.keyFrom owner).bind fun _ _ => .ok _

theorem lacks_resolveThrough {tag : Option String} {t : ThroughRelation} :
    FailsOnly (SchemaError.Lacks g owner relation) (g.resolveThrough owner relation tag t) := by
  refine (g.lacks_targetOf owner relation t.through.entity).bind fun _ _ => ?_
  refine (g.lacks_targetOf owner relation t.target).bind fun _ _ => ?_
  refine (g.lacks_targetOf owner relation (tag.getD t.target)).bind fun target _ => ?_
  refine (lacks_keyOrId owner relation .keyFrom t.keyFrom owner).bind fun _ _ => ?_
  exact (lacks_keyOrId owner relation .keyTo t.keyTo target).bind fun _ _ => .ok _

/-- A relation that can be joined is resolved, unless it lacks something. -/
theorem lacks_resolve {tag : Option String} {r : Relation} (hr : owner.relation? relation = some r)
    (hjoinable : r.isJoinable = true) :
    FailsOnly (SchemaError.Lacks g owner relation) (g.resolve owner relation tag) := by
  unfold resolve
  rw [hr]
  cases r with
  | direct d => exact (lacks_resolveDirect (by simpa [Relation.isJoinable] using hjoinable)).map
  | through t => exact lacks_resolveThrough.map

end Registry

/-! ## Obstacles -/

namespace Crossing

/-- The relation is hidden, or is a list of keys in one column. -/
def Barred (g : Registry) (root : Entity) (x : Crossing) : Prop :=
  ∃ owner, g.reached? root x.before = some owner ∧ (owner.isHidden x.last.name = true ∨
    ∃ d, owner.relation? x.last.name = some (.direct d) ∧ d.kind = .referencesMany)

/-- The relation starts from the owner and cannot be resolved. -/
def Unresolved (g : Registry) (root owner : Entity) (e : SchemaError) (x : Crossing) : Prop :=
  g.reached? root x.before = some owner ∧ g.resolve owner x.last.name x.last.tag = .error e

/-- The relation is in the way of joins: it is barred or cannot be resolved. -/
def Blocks (g : Registry) (root : Entity) (x : Crossing) : Prop :=
  x.Barred g root ∨ ∃ owner e, x.Unresolved g root owner e

/-- The relation is the first on the chain that is in the way. -/
structure First (g : Registry) (root : Entity) (chain : List Segment) (x : Crossing) : Prop where
  crossed : x.chain <+: chain
  blocks : x.Blocks g root
  clear : ∀ y : Crossing, y.chain <+: x.before → ¬ y.Blocks g root

variable {g : Registry} {owner next : Entity} {s last : Segment} {rest before chain : List Segment}
  {x y : Crossing}

theorem reached?_cons {r : Relation} (hr : owner.relation? s.name = some r)
    (hn : g.entity? (s.tag.getD r.target) = some next) :
    g.reached? owner (s :: before) = g.reached? next before := by
  simp [Registry.reached?, hr, hn]

theorem barred_cons {r : Relation} (hr : owner.relation? s.name = some r)
    (hn : g.entity? (s.tag.getD r.target) = some next) :
    Barred g owner ⟨s :: before, last⟩ ↔ Barred g next ⟨before, last⟩ := by
  rw [Barred, Barred, reached?_cons hr hn]

theorem unresolved_cons {r : Relation} (hr : owner.relation? s.name = some r)
    (hn : g.entity? (s.tag.getD r.target) = some next) {start : Entity} {e : SchemaError} :
    Unresolved g owner start e ⟨s :: before, last⟩ ↔ Unresolved g next start e ⟨before, last⟩ := by
  rw [Unresolved, Unresolved, reached?_cons hr hn]

theorem blocks_cons {r : Relation} (hr : owner.relation? s.name = some r)
    (hn : g.entity? (s.tag.getD r.target) = some next) :
    Blocks g owner ⟨s :: before, last⟩ ↔ Blocks g next ⟨before, last⟩ := by
  simp only [Blocks, barred_cons hr hn, unresolved_cons hr hn]

theorem chain_prefix_cons {x : Crossing} (h : x.chain <+: s :: rest) :
    x = ⟨[], s⟩ ∨ ∃ y : Crossing, x = ⟨s :: y.before, y.last⟩ ∧ y.chain <+: rest := by
  obtain ⟨before, last⟩ := x
  cases before with
  | nil =>
    obtain ⟨rfl, -⟩ := List.cons_prefix_cons.1 h
    exact .inl rfl
  | cons t before =>
    obtain ⟨rfl, hrest⟩ := List.cons_prefix_cons.1 h
    exact .inr ⟨⟨before, last⟩, rfl, hrest⟩

/-- Nothing is in the way on a chain whose first relation and whose rest are clear. -/
theorem clear_cons {r : Relation} (hr : owner.relation? s.name = some r)
    (hn : g.entity? (s.tag.getD r.target) = some next) (hs : ¬ Blocks g owner ⟨[], s⟩)
    (hrest : ∀ y : Crossing, y.chain <+: rest → ¬ y.Blocks g next) (hx : x.chain <+: s :: rest) :
    ¬ x.Blocks g owner := by
  obtain rfl | ⟨y, rfl, hy⟩ := chain_prefix_cons hx
  · exact hs
  · rw [blocks_cons hr hn]
    exact hrest y hy

theorem first_head (h : Blocks g owner ⟨[], s⟩) : First g owner (s :: rest) ⟨[], s⟩ :=
  ⟨List.cons_prefix_cons.2 ⟨rfl, List.nil_prefix⟩, h, by simp [Crossing.chain]⟩

/-- Behind a first relation that is clear comes what comes first on the rest. -/
theorem First.cons {r : Relation} (h : x.First g next rest)
    (hr : owner.relation? s.name = some r) (hn : g.entity? (s.tag.getD r.target) = some next)
    (hs : ¬ Blocks g owner ⟨[], s⟩) : First g owner (s :: rest) ⟨s :: x.before, x.last⟩ :=
  ⟨List.cons_prefix_cons.2 ⟨rfl, h.crossed⟩, (blocks_cons hr hn).2 h.blocks,
    fun _ => clear_cons hr hn hs h.clear⟩

/-- Of relations on a chain one is before the other. -/
theorem First.not_longer (hx : x.First g owner chain) (hy : y.First g owner chain) :
    ¬ x.chain.length < y.chain.length := by
  intro h
  have shorter : x.chain <+: y.chain :=
    List.prefix_of_prefix_length_le hx.crossed hy.crossed h.le
  have before : x.chain <+: y.before := by
    refine (List.prefix_concat_iff.1 shorter).resolve_left fun heq => ?_
    exact absurd (congrArg List.length heq) h.ne
  exact hy.clear x before hx.blocks

theorem First.unique (hx : x.First g owner chain) (hy : y.First g owner chain) : x = y := by
  refine eq_of_chain_eq ?_
  have lengths : x.chain.length = y.chain.length :=
    le_antisymm (not_lt.1 (hy.not_longer hx)) (not_lt.1 (hx.not_longer hy))
  exact (List.prefix_of_prefix_length_le hx.crossed hy.crossed lengths.le).eq_of_length lengths

end Crossing

/-! ## Joins along a chain -/

/-- What looking for the joins along a chain comes to: the chain is given up at a barred relation, or
it fails at one that cannot be resolved, or it has for each relation the joins that arrive where the
relation leads. -/
inductive Registry.ChainOutcome (g : Registry) (owner : Entity) (chain : List Segment) :
    Except CompileError (Option (List Hops)) → Prop
  | givenUp {x : Crossing} (first : x.First g owner chain) (barred : x.Barred g owner) :
    ChainOutcome g owner chain (.ok none)
  | failed {x : Crossing} {start : Entity} {e : SchemaError} (first : x.First g owner chain)
    (joinable : ¬ x.Barred g owner) (unresolved : x.Unresolved g owner start e)
    (lacks : e.Lacks g start x.last.name) : ChainOutcome g owner chain (.error (.schema e))
  | joined {hops : List Hops} (clear : ∀ x : Crossing, x.chain <+: chain → ¬ x.Blocks g owner)
    (length : hops.length = chain.length)
    (arrives : ∀ i hop, hops[i]? = some hop → ∃ e, g.reached? owner (chain.take (i + 1)) = some e ∧
      g.entity? hop.last.entity = some e) : ChainOutcome g owner chain (.ok (some hops))

namespace Registry

variable {g : Registry} {owner next last : Entity} {s : Segment} {chain rest : List Segment}
  {r : Relation}

/-- The first relation of a chain is barred just in case joins give it up. -/
theorem barred_head_iff (hr : owner.relation? s.name = some r) :
    Crossing.Barred g owner ⟨[], s⟩ ↔
      (owner.isHidden s.name || !((owner.relation? s.name).any Relation.isJoinable)) = true := by
  have kind : (∃ d, r = .direct d ∧ d.kind = .referencesMany) ↔ r.isJoinable = false := by
    cases r <;> simp [Relation.isJoinable]
  simp only [Crossing.Barred, reached?, Option.some.injEq, exists_eq_left', hr, kind,
    Option.any_some, Bool.or_eq_true, Bool.not_eq_true']

/-- The joins of a relation that is clear come before those of the rest of the chain. -/
theorem hops?_of_resolved {hops : Hops} (hbarred : ¬ Crossing.Barred g owner ⟨[], s⟩)
    (hr : owner.relation? s.name = some r) (hres : g.resolve owner s.name s.tag = .ok hops)
    (hnext : g.entity? hops.last.entity = some next) :
    g.hops? owner (s :: rest) = (g.hops? next rest).map (Option.map (hops :: ·)) := by
  have found : g.entity hops.last.entity = .ok next := entity_eq_ok.2 hnext
  rw [hops?, if_neg (mt (barred_head_iff hr).2 hbarred), hres, ofSchema_eq_ok.2 rfl]
  dsimp only [bind, Except.bind]
  rw [found, ofSchema_eq_ok.2 rfl]
  dsimp only
  cases g.hops? next rest <;> rfl

/-- What comes of a chain whose relations are declared. -/
theorem chainOutcome (hreached : g.reached? owner chain = some last) :
    g.ChainOutcome owner chain (g.hops? owner chain) := by
  induction chain generalizing owner with
  | nil => exact .joined (by simp [Crossing.chain]) rfl (by simp)
  | cons s rest ih =>
    obtain ⟨r, next, hr, hnext, hrest⟩ := reached?_cons_eq_some.1 hreached
    by_cases hbarred : Crossing.Barred g owner ⟨[], s⟩
    · rw [hops?, if_pos ((barred_head_iff hr).1 hbarred)]
      exact .givenUp (Crossing.first_head (.inl hbarred)) hbarred
    cases hres : g.resolve owner s.name s.tag with
    | error e =>
      have joinable : r.isJoinable = true := by
        rw [barred_head_iff hr, hr] at hbarred
        simp_all
      have unresolved : Crossing.Unresolved g owner owner e ⟨[], s⟩ := ⟨rfl, hres⟩
      rw [hops?, if_neg (mt (barred_head_iff hr).2 hbarred), hres]
      exact .failed (Crossing.first_head (.inr ⟨owner, e, unresolved⟩)) hbarred unresolved
        (lacks_resolve hr joinable e hres)
    | ok hops =>
      obtain ⟨r', hr', -, hentity⟩ := resolve_cases hres
      obtain rfl := Option.some.inj (hr.symm.trans hr')
      have arrived : g.entity? hops.last.entity = some next := hentity ▸ hnext
      have clear : ¬ Crossing.Blocks g owner ⟨[], s⟩ := by
        rintro (h | ⟨start, e, hstart, he⟩)
        · exact hbarred h
        · obtain rfl := Option.some.inj hstart
          cases hres.symm.trans he
      rw [hops?_of_resolved hbarred hr hres arrived]
      have outcome := ih hrest
      generalize g.hops? next rest = found at outcome
      cases outcome with
      | givenUp first barred =>
        exact .givenUp (first.cons hr hnext clear) ((Crossing.barred_cons hr hnext).2 barred)
      | failed first joinable unresolved lacks =>
        exact .failed (first.cons hr hnext clear) (mt (Crossing.barred_cons hr hnext).1 joinable)
          ((Crossing.unresolved_cons hr hnext).2 unresolved) lacks
      | joined clear' length arrives =>
        refine .joined (fun x => Crossing.clear_cons hr hnext clear clear')
          (congrArg (· + 1) length) fun i hop hi => ?_
        cases i with
        | zero =>
          obtain rfl := Option.some.inj hi
          exact ⟨next, Crossing.reached?_cons hr hnext, arrived⟩
        | succ i =>
          obtain ⟨e, he, hentity⟩ := arrives i hop hi
          exact ⟨e, (Crossing.reached?_cons hr hnext).trans he, hentity⟩

/-- The chain is given up just in case the first relation in the way is barred. -/
theorem ChainOutcome.givenUp_iff {found : Except CompileError (Option (List Hops))}
    (h : g.ChainOutcome owner chain found) :
    found = .ok none ↔ ∃ x : Crossing, x.First g owner chain ∧ x.Barred g owner := by
  cases h with
  | @givenUp x first barred => exact ⟨fun _ => ⟨x, first, barred⟩, fun _ => rfl⟩
  | failed first joinable _ _ =>
    refine ⟨nofun, ?_⟩
    rintro ⟨y, hy, barred⟩
    exact absurd (hy.unique first ▸ barred) joinable
  | joined clear _ _ =>
    refine ⟨nofun, ?_⟩
    rintro ⟨y, hy, -⟩
    exact absurd hy.blocks (clear y hy.crossed)

/-- The search fails just in case the first relation in the way is not barred, and for what this one
lacks. -/
theorem ChainOutcome.failed_iff {found : Except CompileError (Option (List Hops))}
    (h : g.ChainOutcome owner chain found) {e : CompileError} :
    found = .error e ↔ ∃ (x : Crossing) (start : Entity) (e' : SchemaError),
      x.First g owner chain ∧ ¬ x.Barred g owner ∧ x.Unresolved g owner start e' ∧
      e'.Lacks g start x.last.name ∧ e = .schema e' := by
  cases h with
  | givenUp first barred =>
    refine ⟨nofun, ?_⟩
    rintro ⟨y, -, -, hy, joinable, -⟩
    exact absurd (hy.unique first ▸ barred) joinable
  | @failed x start e' first joinable unresolved lacks =>
    constructor
    · rintro ⟨⟩
      exact ⟨x, start, e', first, joinable, unresolved, lacks, rfl⟩
    · rintro ⟨y, start', e'', hy, -, ⟨hstart, he⟩, -, rfl⟩
      obtain rfl := hy.unique first
      obtain rfl := Option.some.inj (hstart.symm.trans unresolved.1)
      rw [Except.error.inj (he.symm.trans unresolved.2)]
  | joined clear _ _ =>
    refine ⟨nofun, ?_⟩
    rintro ⟨y, -, -, hy, -⟩
    exact absurd hy.blocks (clear y hy.crossed)

end Registry

namespace Crossing

variable {g : Registry} {owner last : Entity} {chain : List Segment}

/-- A chain that is joined crosses no barred relation. -/
theorem not_barred_of_hops? {hops : List Hops} (h : g.hops? owner chain = .ok (some hops))
    (hreached : g.reached? owner chain = some last) {x : Crossing} (hx : x.chain <+: chain) :
    ¬ x.Barred g owner := by
  have outcome := Registry.chainOutcome hreached
  rw [h] at outcome
  cases outcome with
  | joined clear _ _ => exact fun barred => clear x hx (.inl barred)

/-- A chain that is given up crosses a barred relation. -/
theorem barred_of_hops? (h : g.hops? owner chain = .ok none)
    (hreached : g.reached? owner chain = some last) :
    ∃ x : Crossing, x.chain <+: chain ∧ x.Barred g owner := by
  obtain ⟨x, first, barred⟩ := (Registry.chainOutcome hreached).givenUp_iff.1 h
  exact ⟨x, first.crossed, barred⟩

end Crossing

/-! ## Chains of keys -/

namespace Chain

variable {g : Registry} {root : Entity} {key : String} {c : Chain}

/-- The search for the joins of a key stops at the first relation in the way of its chain.  It gives
the key up there if the relation is barred, and fails otherwise, for want of a target or of a key.
If nothing is in the way there are joins for each relation, and they arrive at the entity to which
the walk of the key comes by this relation. -/
theorem hops_agree (h : Chain.ofKey g root key = .ok c) :
    (g.hops? root c.segments = .ok none ↔
      ∃ x : Crossing, x.First g root c.segments ∧ x.Barred g root) ∧
    (∀ e, g.hops? root c.segments = .error e ↔
      ∃ (x : Crossing) (owner : Entity) (e' : SchemaError), x.First g root c.segments ∧
        ¬ x.Barred g root ∧ x.Unresolved g root owner e' ∧ e'.Lacks g owner x.last.name ∧
        e = .schema e') ∧
    ∀ hops, g.hops? root c.segments = .ok (some hops) →
      hops.length = c.segments.length ∧ ∀ i hop, hops[i]? = some hop →
        ∃ w, walk g key root false none (c.segments.take (i + 1)) = .ok w ∧
          w.chain = c.segments.take (i + 1) ∧ g.entity? hop.last.entity = some w.last := by
  obtain ⟨segments, -, resolves⟩ := ofKey_eq_ok_iff.1 h
  obtain ⟨last, leads⟩ := resolves.leads
  have outcome := Registry.chainOutcome leads.reached
  refine ⟨outcome.givenUp_iff, fun _ => outcome.failed_iff, fun hops hhops => ?_⟩
  rw [hhops] at outcome
  cases outcome with
  | joined _ length arrives =>
    refine ⟨length, fun i hop hi => ?_⟩
    obtain ⟨e, he, hentity⟩ := arrives i hop hi
    obtain ⟨e', front⟩ := leads.of_prefix (List.take_prefix (i + 1) c.segments)
    obtain rfl := Option.some.inj (he.symm.trans front.reached)
    obtain ⟨w, hw, hchain, rfl⟩ := front.exists_walk key
    exact ⟨w, hw, hchain, hentity⟩

/-- A ship with a crew by way of berths.  Of a sailor, the log is hidden and the port has no
identifier. -/
def ship : Entity :=
  { name := "Ship", properties := [{ name := "id", isId := true }],
    relations := .ofList [("crew", .through ⟨"Sailor", none, none, ⟨"Berth", none, none, none⟩⟩)] }

/-- Ships, with their crews. -/
def fleet : Registry := ⟨.ofList [
  ship,
  { name := "Sailor", properties := [{ name := "id", isId := true }, { name := "name" }],
    relations := .ofList [
      ("mentor", .direct ⟨.belongsTo, "Sailor", none, none, none⟩),
      ("log", .direct ⟨.hasMany, "Entry", none, none, none⟩),
      ("port", .direct ⟨.belongsTo, "Port", none, none, none⟩)],
    settings := { hiddenRelations := ["log"] } },
  { name := "Entry", properties := [{ name := "id", isId := true }] },
  { name := "Port", properties := [{ name := "name" }] },
  { name := "Berth" }]⟩

theorem hops_agree_fleet :
    (∃ c, Chain.ofKey fleet ship "crew.log.id" = .ok c ∧
      ∃ x : Crossing, x.First fleet ship c.segments ∧ x.Barred fleet ship) ∧
    (∃ c, Chain.ofKey fleet ship "crew.port.name" = .ok c ∧
      ∃ (x : Crossing) (owner : Entity) (e' : SchemaError), x.First fleet ship c.segments ∧
        ¬ x.Barred fleet ship ∧ x.Unresolved fleet ship owner e' ∧
        e'.Lacks fleet owner x.last.name ∧
        CompileError.schema (.missingKey "Sailor" "port" .keyTo) = .schema e') ∧
    ∃ c hops, Chain.ofKey fleet ship "crew.mentor.name" = .ok c ∧
      fleet.hops? ship c.segments = .ok (some hops) ∧ hops.length = c.segments.length ∧
      ∀ i hop, hops[i]? = some hop → ∃ w,
        walk fleet "crew.mentor.name" ship false none (c.segments.take (i + 1)) = .ok w ∧
        w.chain = c.segments.take (i + 1) ∧ fleet.entity? hop.last.entity = some w.last := by
  have hidden : Chain.ofKey fleet ship "crew.log.id" =
      .ok (.property [⟨"crew", none⟩, ⟨"log", none⟩] "id" "id") := by decide +kernel
  have missing : Chain.ofKey fleet ship "crew.port.name" =
      .ok (.property [⟨"crew", none⟩, ⟨"port", none⟩] "name" "name") := by decide +kernel
  have joined : Chain.ofKey fleet ship "crew.mentor.name" =
      .ok (.property [⟨"crew", none⟩, ⟨"mentor", none⟩] "name" "name") := by decide +kernel
  have hops : fleet.hops? ship [⟨"crew", none⟩, ⟨"mentor", none⟩] = .ok (some
      [.through ⟨"Berth", "id", "shipId", none⟩ ⟨"Sailor", "sailorId", "id", none⟩,
        .direct ⟨"Sailor", "mentorId", "id", none⟩]) := by decide +kernel
  exact ⟨⟨_, hidden, (hops_agree hidden).1.1 (by decide +kernel)⟩,
    ⟨_, missing, ((hops_agree missing).2.1 _).1 (by decide +kernel)⟩,
    _, _, joined, hops, (hops_agree joined).2.2 _ hops⟩

end Chain

end FilterSql
