import FilterSql.Plan.Planner
import FilterSql.Proofs.Path.Chain

/-!
# Steps of planning

What each step of planning can do, guards included: a relation of a chain reuses the join of its
path or plans new joins at the end (`planHop_cases`), and a key plans the relations of its chain in
turn and says where it arrives (`planKey_cases`), or fails and changes nothing (`planning_apply`).
`Session.Reached` are the sessions that planning keys can come to; what planning a key preserves
holds of all of them.
-/

namespace FilterSql

namespace Registry

variable {g : Registry} {anchor : Anchor} {path stem : String}

theorem name_of_entity? {name : String} {e : Entity} (h : g.entity? name = some e) :
    e.name = name := by
  simpa using List.find?_some h

/-- Direct joins arrive at the entity of the tag, or else at the declared target. -/
theorem entity_of_resolveDirect {owner : Entity} {name : String} {tag : Option String}
    {r : DirectRelation} {keys : JoinKeys} (h : g.resolveDirect owner name tag r = .ok keys) :
    keys.entity = tag.getD r.target ∧ ∃ e, g.entity? keys.entity = some e := by
  unfold resolveDirect at h
  split at h
  · cases h
  obtain ⟨target, htarget, h⟩ := bind_eq_ok.1 h
  replace htarget := targetOf_eq_ok.1 htarget
  have name := name_of_entity? htarget
  dsimp only at h
  split at h
  · obtain ⟨keyTo, -, h⟩ := bind_eq_ok.1 h
    obtain rfl := pure_eq_ok.1 h
    exact ⟨name, target, name ▸ htarget⟩
  · obtain ⟨keyFrom, -, h⟩ := bind_eq_ok.1 h
    obtain rfl := pure_eq_ok.1 h
    exact ⟨name, target, name ▸ htarget⟩

theorem entity_of_resolveThrough {owner : Entity} {name : String} {tag : Option String}
    {r : ThroughRelation} {table last : JoinKeys}
    (h : g.resolveThrough owner name tag r = .ok (table, last)) :
    last.entity = tag.getD r.target ∧ (∃ e, g.entity? table.entity = some e) ∧
      ∃ e, g.entity? last.entity = some e := by
  obtain ⟨middle, hmiddle, h⟩ := bind_eq_ok.1 h
  obtain ⟨_, -, h⟩ := bind_eq_ok.1 h
  obtain ⟨target, htarget, h⟩ := bind_eq_ok.1 h
  obtain ⟨_, -, h⟩ := bind_eq_ok.1 h
  obtain ⟨_, -, h⟩ := bind_eq_ok.1 h
  obtain ⟨rfl, rfl⟩ := Prod.mk.inj (pure_eq_ok.1 h)
  replace hmiddle := targetOf_eq_ok.1 hmiddle
  replace htarget := targetOf_eq_ok.1 htarget
  exact ⟨name_of_entity? htarget, ⟨middle, name_of_entity? hmiddle ▸ hmiddle⟩,
    target, name_of_entity? htarget ▸ htarget⟩

/-- A direct relation resolves to one join, and a relation by way of a table of pairs to two. -/
theorem resolve_cases {owner : Entity} {name : String} {tag : Option String} {hops : Hops}
    (h : g.resolve owner name tag = .ok hops) : ∃ r, owner.relation? name = some r ∧
      ((∃ d keys, r = .direct d ∧ hops = .direct keys) ∨
        ∃ t table target, r = .through t ∧ hops = .through table target) ∧
      hops.last.entity = tag.getD r.target := by
  unfold resolve at h
  split at h
  · cases h
  · rename_i d hr
    obtain ⟨keys, hkeys, rfl⟩ := map_eq_ok.1 h
    exact ⟨_, hr, .inl ⟨d, keys, rfl, rfl⟩, (entity_of_resolveDirect hkeys).1⟩
  · rename_i t hr
    obtain ⟨⟨table, target⟩, hkeys, rfl⟩ := map_eq_ok.1 h
    exact ⟨_, hr, .inr ⟨t, table, target, rfl, rfl⟩, (entity_of_resolveThrough hkeys).1⟩

/-- A chain is given up at a relation that is hidden or cannot be joined; any other relation is
resolved, and leads on to the entity of its tag, or else to its declared target. -/
theorem hops?_cons_cases {owner : Entity} {s : Segment} {rest : List Segment}
    {found : Option (List Hops)} (h : g.hops? owner (s :: rest) = .ok found) :
    ((owner.isHidden s.name = true ∨ (owner.relation? s.name).any Relation.isJoinable = false) ∧
      found = none) ∨
    ∃ r hops next more, owner.isHidden s.name = false ∧ owner.relation? s.name = some r ∧
      r.isJoinable = true ∧ g.resolve owner s.name s.tag = .ok hops ∧
      g.entity? (s.tag.getD r.target) = some next ∧ g.hops? next rest = .ok more ∧
      found = more.map (hops :: ·) := by
  rw [hops?] at h
  split_ifs at h with hbarred
  · obtain rfl := Except.ok.inj h
    exact .inl ⟨by simpa using hbarred, rfl⟩
  · simp only [Bool.or_eq_true, not_or, Bool.not_eq_true, Bool.not_eq_false'] at hbarred
    obtain ⟨hhidden, hjoinable⟩ := hbarred
    obtain ⟨hops, hhops, h⟩ := bind_eq_ok.1 h
    obtain ⟨next, hnext, h⟩ := bind_eq_ok.1 h
    obtain ⟨more, hmore, h⟩ := bind_eq_ok.1 h
    have resolved := ofSchema_eq_ok.1 hhops
    have next? := entity_eq_ok.1 (ofSchema_eq_ok.1 hnext)
    obtain ⟨r, hr, -, hentity⟩ := resolve_cases resolved
    rw [hentity] at next?
    rw [hr, Option.any_some] at hjoinable
    exact .inr ⟨r, hops, next, more, hhidden, hr, hjoinable, resolved, next?, hmore,
      (pure_eq_ok.1 h).symm⟩

theorem joinAt_eq_ok {relation : String} {keys : JoinKeys} {j : Join} :
    g.joinAt anchor path stem relation keys = .ok j ↔
      ∃ target, g.entity? keys.entity = some target ∧ j = {
        path, stem, relation
        parentStem := anchor.stem, parentLabel := anchor.label, parentEntity := anchor.entity
        keyFrom := keys.keyFrom, keyTo := keys.keyTo, target := keys.entity
        label := stem ++ target.tableName, discriminator := keys.discriminator } := by
  simp only [joinAt, bind_eq_ok, pure_eq_ok, ofSchema_eq_ok, entity_eq_ok]
  grind

/-- A direct relation needs one join; a relation by way of a table of pairs needs two, and the
second starts from the first. -/
theorem joinsAt_cases {segment : Segment} {hops : Hops} {middle : List Join} {last : Join}
    (h : g.joinsAt anchor path stem segment hops = .ok (middle, last)) :
    (∃ keys, hops = .direct keys ∧ middle = [] ∧
      g.joinAt anchor path stem segment.name keys = .ok last) ∨
    ∃ table target half, hops = .through table target ∧ middle = [half] ∧
      g.joinAt anchor s!"{anchor.path}.-.{segment.text}" stem s!"_{segment.name}_" table =
        .ok half ∧
      g.joinAt (.ofJoin half) path stem segment.name target = .ok last := by
  cases hops with
  | direct keys =>
    obtain ⟨j, hj, h⟩ := bind_eq_ok.1 h
    obtain ⟨rfl, rfl⟩ := Prod.mk.inj (pure_eq_ok.1 h)
    exact .inl ⟨keys, rfl, rfl, hj⟩
  | through table target =>
    obtain ⟨half, hhalf, h⟩ := bind_eq_ok.1 h
    obtain ⟨j, hj, h⟩ := bind_eq_ok.1 h
    obtain ⟨rfl, rfl⟩ := Prod.mk.inj (pure_eq_ok.1 h)
    exact .inr ⟨table, target, half, rfl, rfl, hhalf, hj⟩

end Registry

/-- The joins lead to entities of the registry. -/
def Hops.Registered (g : Registry) : Hops → Prop
  | .direct target => ∃ e, g.entity? target.entity = some e
  | .through table target =>
    (∃ e, g.entity? table.entity = some e) ∧ ∃ e, g.entity? target.entity = some e

/-- Joins to entities of the registry can be planned, wherever they start. -/
theorem Hops.Registered.joinsAt {g : Registry} {hops : Hops} (h : hops.Registered g)
    (anchor : Anchor) (path stem : String) (segment : Segment) :
    ∃ middle last, g.joinsAt anchor path stem segment hops = .ok (middle, last) := by
  cases hops with
  | direct target =>
    obtain ⟨e, he⟩ := h
    exact ⟨_, _, bind_eq_ok.2 ⟨_, Registry.joinAt_eq_ok.2 ⟨e, he, rfl⟩, rfl⟩⟩
  | through table target =>
    obtain ⟨⟨e, he⟩, e', he'⟩ := h
    exact ⟨_, _, bind_eq_ok.2 ⟨_, Registry.joinAt_eq_ok.2 ⟨e, he, rfl⟩,
      bind_eq_ok.2 ⟨_, Registry.joinAt_eq_ok.2 ⟨e', he', rfl⟩, rfl⟩⟩⟩

namespace Registry

variable {g : Registry}

theorem registered_of_resolve {owner : Entity} {name : String} {tag : Option String} {hops : Hops}
    (h : g.resolve owner name tag = .ok hops) : hops.Registered g := by
  unfold resolve at h
  split at h
  · cases h
  · obtain ⟨keys, hkeys, rfl⟩ := map_eq_ok.1 h
    exact (entity_of_resolveDirect hkeys).2
  · obtain ⟨⟨table, target⟩, hkeys, rfl⟩ := map_eq_ok.1 h
    exact (entity_of_resolveThrough hkeys).2

theorem registered_of_hops? {owner : Entity} {chain : List Segment} {hops : List Hops}
    (h : g.hops? owner chain = .ok (some hops)) : ∀ hop ∈ hops, hop.Registered g := by
  induction chain generalizing owner hops with
  | nil =>
    obtain rfl := Option.some.inj (Except.ok.inj h)
    simp
  | cons s rest ih =>
    obtain ⟨-, h⟩ | ⟨r, first, next, more, -, -, -, hres, -, hmore, h⟩ := hops?_cons_cases h
    · cases h
    obtain ⟨more, rfl, rfl⟩ := Option.map_eq_some_iff.1 h.symm
    exact List.forall_mem_cons.2 ⟨registered_of_resolve hres, ih hmore⟩

end Registry

namespace Planning

variable {α β : Type} {s s' : Session}

theorem bind_apply (x : Planning α) (f : α → Planning β) (s : Session) :
    (x >>= f) s = match x s with
      | .ok a s₁ => f a s₁
      | .error e s₁ => .error e s₁ := by
  show EStateM.bind x f s = _
  unfold EStateM.bind
  cases x s <;> rfl

theorem bind_eq_ok {x : Planning α} {f : α → Planning β} {b : β} :
    (x >>= f) s = .ok b s' ↔ ∃ a s₁, x s = .ok a s₁ ∧ f a s₁ = .ok b s' := by
  rw [bind_apply]
  cases x s <;> simp

theorem bind_of_ok {x : Planning α} {f : α → Planning β} {a : α} (h : x s = .ok a s') :
    (x >>= f) s = f a s' := by
  rw [bind_apply, h]

theorem pure_eq_ok {a b : α} : (pure a : Planning α) s = .ok b s' ↔ a = b ∧ s = s' := by
  show EStateM.Result.ok a s = _ ↔ _
  simp

theorem lift_eq_ok {x : Except CompileError α} {a : α} :
    (liftM x : Planning α) s = .ok a s' ↔ x = .ok a ∧ s' = s := by
  cases x with
  | ok b =>
    show EStateM.Result.ok b s = _ ↔ _
    simp [eq_comm]
  | error e =>
    show EStateM.Result.error e s = _ ↔ _
    simp

/-- What does not look at the session leaves it alone, also when it fails. -/
theorem lift_bind {x : Except CompileError α} {f : α → Planning β} :
    ((liftM x : Planning α) >>= f) s = match x with
      | .ok a => f a s
      | .error e => .error e s := by
  cases x <;> rfl

theorem get_bind {f : Session → Planning β} : ((get : Planning Session) >>= f) s = f s s := rfl

end Planning

namespace Session

variable {g : Registry} {root : Entity} {scope : Scope} {key path : String}

theorem join?_eq_some {s : Session} {path : String} {j : Join} (h : s.join? path = some j) :
    j ∈ s.joins ∧ j.path = path :=
  ⟨List.mem_of_find?_eq_some h, by simpa using List.find?_some h⟩

theorem join?_eq_none {s : Session} {path : String} :
    s.join? path = none ↔ path ∉ s.joins.map (·.path) := by
  simp [join?, List.find?_eq_none]

theorem join?_addJoins (s : Session) (joins : List Join) (path : String) :
    (s.addJoins joins).join? path = (s.join? path).or (joins.find? fun j => j.path == path) := by
  rw [join?, join?, addJoins, List.find?_append]

/-- Of the joins of one relation, the last is the only one of its path. -/
theorem find?_joinsAt {anchor : Anchor} {stem : String} {segment : Segment} {hops : Hops}
    {middle : List Join} {last : Join}
    (h : g.joinsAt anchor s!"{anchor.path}.{segment.text}" stem segment hops = .ok (middle, last)) :
    (middle ++ [last]).find? (fun j => j.path == s!"{anchor.path}.{segment.text}") =
      some last := by
  obtain ⟨keys, -, rfl, hlast⟩ | ⟨table, target, half, -, rfl, hhalf, hlast⟩ :=
    Registry.joinsAt_cases h
  · obtain ⟨-, -, rfl⟩ := Registry.joinAt_eq_ok.1 hlast
    simp
  · obtain ⟨-, -, rfl⟩ := Registry.joinAt_eq_ok.1 hlast
    obtain ⟨-, -, rfl⟩ := Registry.joinAt_eq_ok.1 hhalf
    -- The path of the table in between is longer by two characters.
    have longer : s!"{anchor.path}.-.{segment.text}" ≠ s!"{anchor.path}.{segment.text}" := by
      intro heq
      have lengths : ".-.".length = ".".length := by
        simpa [toString] using congrArg String.length heq
      exact absurd lengths (by decide)
    simp [longer]

/-- The joins of one relation are planned under the next number; only the number is drawn if that
fails. -/
theorem addHop_apply {depth : Nat} {segment : Segment} {hops : Hops} {anchor : Anchor}
    {s : Session} : addHop g depth path segment hops anchor s =
      match g.joinsAt anchor path s!"t_{Text.natural s.next}_{Text.natural depth}_" segment
        hops with
      | .ok (middle, last) => .ok () (s.draw.2.addJoins (middle ++ [last]))
      | .error e => .error e s.draw.2 := by
  have drawn : addHop g depth path segment hops anchor s =
      ((liftM (g.joinsAt anchor path s!"t_{Text.natural s.next}_{Text.natural depth}_" segment
        hops) : Planning (List Join × Join)) >>= fun joins =>
          modify (·.addJoins (joins.1 ++ [joins.2]))) s.draw.2 := rfl
  rw [drawn, Planning.lift_bind]
  cases g.joinsAt anchor path s!"t_{Text.natural s.next}_{Text.natural depth}_" segment hops <;> rfl

theorem anchorAt_apply {s : Session} : anchorAt root key path s =
    match s.join? path with
    | some j => .ok (.ofJoin j) s
    | none => .error (.unknownPath root.name key) s := by
  unfold anchorAt
  rw [Planning.get_bind]
  cases s.join? path <;> rfl

theorem planHop_apply {depth : Nat} {segment : Segment} {hops : Hops} {s : Session}
    {anchor : Anchor} : planHop g root key depth segment hops anchor s =
      if (s.join? s!"{anchor.path}.{segment.text}").isNone then
        (addHop g depth s!"{anchor.path}.{segment.text}" segment hops anchor >>= fun _ =>
          anchorAt root key s!"{anchor.path}.{segment.text}") s
      else anchorAt root key s!"{anchor.path}.{segment.text}" s := by
  unfold planHop
  dsimp only
  rw [Planning.get_bind]
  split <;> rfl

/-- A relation of a chain reuses the join of its path, or plans its joins after those there are. -/
theorem planHop_cases {depth : Nat} {segment : Segment} {hops : Hops} {s s' : Session}
    {anchor anchor' : Anchor}
    (h : planHop g root key depth segment hops anchor s = .ok anchor' s') :
    (∃ j, s.join? s!"{anchor.path}.{segment.text}" = some j ∧ s' = s ∧ anchor' = .ofJoin j) ∨
    ∃ stem middle last, s.join? s!"{anchor.path}.{segment.text}" = none ∧
      stem = s!"t_{Text.natural s.next}_{Text.natural depth}_" ∧
      g.joinsAt anchor s!"{anchor.path}.{segment.text}" stem segment hops = .ok (middle, last) ∧
      s' = s.draw.2.addJoins (middle ++ [last]) ∧ anchor' = .ofJoin last := by
  rw [planHop_apply] at h
  cases hj : s.join? s!"{anchor.path}.{segment.text}" with
  | some j =>
    rw [hj, if_neg (by simp), anchorAt_apply, hj] at h
    obtain ⟨rfl, rfl⟩ := EStateM.Result.ok.inj h
    exact .inl ⟨j, rfl, rfl, rfl⟩
  | none =>
    rw [hj, if_pos (by rfl)] at h
    obtain ⟨_, s₁, hadd, h⟩ := Planning.bind_eq_ok.1 h
    rw [addHop_apply] at hadd
    cases hjoins : g.joinsAt anchor s!"{anchor.path}.{segment.text}"
        s!"t_{Text.natural s.next}_{Text.natural depth}_" segment hops with
    | error e =>
      rw [hjoins] at hadd
      cases hadd
    | ok joins =>
      obtain ⟨middle, last⟩ := joins
      rw [hjoins] at hadd
      obtain ⟨-, rfl⟩ := EStateM.Result.ok.inj hadd
      have drawn : s.draw.2.join? s!"{anchor.path}.{segment.text}" = none := hj
      rw [anchorAt_apply, join?_addJoins, drawn, Option.none_or, find?_joinsAt hjoins] at h
      obtain ⟨rfl, rfl⟩ := EStateM.Result.ok.inj h
      exact .inr ⟨_, middle, last, rfl, rfl, hjoins, rfl, rfl⟩

/-- What every relation of a chain preserves holds at the end of the chain. -/
theorem planHops_induct {I : Session → Anchor → Prop}
    (step : ∀ {depth segment hops s anchor s' anchor'}, I s anchor →
      planHop g root key depth segment hops anchor s = .ok anchor' s' → I s' anchor')
    {chain : List (Segment × Hops)} {depth : Nat} {s s' : Session} {anchor anchor' : Anchor}
    (h : planHops g root key depth anchor chain s = .ok anchor' s') (start : I s anchor) :
    I s' anchor' := by
  induction chain generalizing depth s anchor with
  | nil =>
    obtain ⟨rfl, rfl⟩ := Planning.pure_eq_ok.1 h
    exact start
  | cons hop rest ih =>
    obtain ⟨segment, hops⟩ := hop
    obtain ⟨anchor₁, s₁, hhop, h⟩ := Planning.bind_eq_ok.1 h
    exact ih h (step start hhop)

/-- What planning the next relation of a chain preserves, from where the relations before it lead,
holds at the end of the chain. -/
theorem planHops_along {I : List Segment → Session → Anchor → Prop} {chain : List Segment}
    (step : ∀ {done t owner hops s anchor s' anchor'}, done ++ [t] <+: chain →
      g.reached? root done = some owner → g.resolve owner t.name t.tag = .ok hops →
      I done s anchor → planHop g root key done.length t hops anchor s = .ok anchor' s' →
      I (done ++ [t]) s' anchor')
    {hops : List Hops} (hhops : g.hops? root chain = .ok (some hops)) {s s' : Session}
    {anchor' : Anchor} (start : I [] s (.ofRoot root))
    (h : planHops g root key 0 (.ofRoot root) (chain.zip hops) s = .ok anchor' s') :
    I chain s' anchor' := by
  -- The relations done and those that are left make the chain.
  have along : ∀ (rest done : List Segment) (owner : Entity) (hops : List Hops)
      (s : Session) (anchor : Anchor), done ++ rest = chain → g.reached? root done = some owner →
      g.hops? owner rest = .ok (some hops) → I done s anchor →
      planHops g root key done.length anchor (rest.zip hops) s = .ok anchor' s' →
      I chain s' anchor' := by
    intro rest
    induction rest with
    | nil =>
      intro done owner hops s anchor hdone _ _ hI hrun
      obtain ⟨rfl, rfl⟩ := Planning.pure_eq_ok.1 hrun
      rw [List.append_nil] at hdone
      exact hdone ▸ hI
    | cons t rest ih =>
      intro done owner hops s anchor hdone howner hhops hI hrun
      obtain ⟨-, hnone⟩ | ⟨r, first, next, more, -, hr, -, hres, hnext, hmore, hsome⟩ :=
        Registry.hops?_cons_cases hhops
      · cases hnone
      obtain ⟨more, rfl, rfl⟩ := Option.map_eq_some_iff.1 hsome.symm
      obtain ⟨anchor₁, s₁, hhop, hrun⟩ := Planning.bind_eq_ok.1 hrun
      have assoc : done ++ [t] ++ rest = chain := by rw [← hdone, List.append_assoc]; rfl
      have reached : g.reached? root (done ++ [t]) = some next := by
        rw [Registry.reached?_append, howner, Option.bind_some, Registry.reached?_cons_eq_some]
        exact ⟨r, next, hr, hnext, rfl⟩
      have deeper : done.length + 1 = (done ++ [t]).length := by simp
      exact ih (done ++ [t]) next more s₁ anchor₁ assoc reached hmore
        (step ⟨rest, assoc⟩ howner hres hI hhop) (deeper ▸ hrun)
  exact along chain [] root hops s _ rfl rfl hhops start h

theorem planChain_eq_ok {chain : List Segment} {property : Option String} {s s' : Session} :
    planChain g root scope key chain property s = .ok () s' ↔
      (g.hops? root chain = .ok none ∧ s' = s) ∨
      ∃ hops s₁ anchor, g.hops? root chain = .ok (some hops) ∧
        planHops g root key 0 (.ofRoot root) (chain.zip hops) s = .ok anchor s₁ ∧
        s' = s₁.setEndpoint scope key ⟨anchor.stem, anchor.label, anchor.entity, property⟩ := by
  unfold planChain
  simp only [Planning.bind_eq_ok, Planning.lift_eq_ok]
  constructor
  · rintro ⟨_ | hops, s₁, ⟨hhops, rfl⟩, h⟩
    · exact .inl ⟨hhops, (Planning.pure_eq_ok.1 h).2.symm⟩
    · obtain ⟨anchor, s₂, hs, h⟩ := Planning.bind_eq_ok.1 h
      obtain ⟨-, rfl⟩ := EStateM.Result.ok.inj h
      exact .inr ⟨hops, s₂, anchor, hhops, hs, rfl⟩
  · rintro (⟨hhops, rfl⟩ | ⟨hops, s₁, anchor, hhops, hs, rfl⟩)
    · exact ⟨none, s', ⟨hhops, rfl⟩, rfl⟩
    · exact ⟨some hops, s, ⟨hhops, rfl⟩, Planning.bind_eq_ok.2 ⟨anchor, s₁, hs, rfl⟩⟩

theorem planning_eq_ok {s s' : Session} :
    planning g root scope key s = .ok () s' ↔ planKey g root scope s key = .ok s' := by
  unfold planKey
  split <;> simp_all

/-- A plain key plans nothing; any other key plans its chain. -/
theorem planKey_eq_ok {s s' : Session} :
    planKey g root scope s key = .ok s' ↔ ∃ c, Chain.ofKey g root key = .ok c ∧
      ((c = .plain ∧ s' = s) ∨
        (c ≠ .plain ∧ planChain g root scope key c.segments c.rest? s = .ok () s')) := by
  rw [← planning_eq_ok, planning, Planning.bind_eq_ok]
  simp only [Planning.lift_eq_ok, and_assoc, exists_and_left, exists_eq_left]
  refine exists_congr fun c => and_congr_right fun _ => ?_
  cases c with
  | plain => simp [Planning.pure_eq_ok, eq_comm]
  | relations chain => simp [Chain.segments, Chain.rest?]
  | property chain name rest => simp [Chain.segments, Chain.rest?]

/-- Planning a key changes nothing, or plans the relations of its chain and says where it
arrives. -/
theorem planKey_cases {s s' : Session} (h : planKey g root scope s key = .ok s') : s' = s ∨
    ∃ (c : Chain) (hops : List Hops) (s₁ : Session) (anchor : Anchor),
      Chain.ofKey g root key = .ok c ∧ c ≠ .plain ∧ g.hops? root c.segments = .ok (some hops) ∧
      planHops g root key 0 (.ofRoot root) (c.segments.zip hops) s = .ok anchor s₁ ∧
      s' = s₁.setEndpoint scope key ⟨anchor.stem, anchor.label, anchor.entity, c.rest?⟩ := by
  obtain ⟨c, hc, ⟨-, rfl⟩ | ⟨hplain, hchain⟩⟩ := planKey_eq_ok.1 h
  · exact .inl rfl
  obtain ⟨-, rfl⟩ | ⟨hops, s₁, anchor, hhops, hrun, rfl⟩ := planChain_eq_ok.1 hchain
  · exact .inl rfl
  · exact .inr ⟨c, hops, s₁, anchor, hc, hplain, hhops, hrun, rfl⟩

/-- What planning a relation preserves, and saying where the key arrives too, holds after the
key. -/
theorem planKey_induct {I : Session → Anchor → Prop}
    (step : ∀ {depth segment hops s anchor s' anchor'}, I s anchor →
      planHop g root key depth segment hops anchor s = .ok anchor' s' → I s' anchor')
    (arrive : ∀ {s anchor} property, I s anchor →
      I (s.setEndpoint scope key ⟨anchor.stem, anchor.label, anchor.entity, property⟩)
        (.ofRoot root))
    {s s' : Session} (h : planKey g root scope s key = .ok s') (start : I s (.ofRoot root)) :
    I s' (.ofRoot root) := by
  obtain rfl | ⟨c, hops, s₁, anchor, -, -, -, hrun, rfl⟩ := planKey_cases h
  · exact start
  · exact arrive c.rest? (planHops_induct step hrun start)

/-! ## All or nothing -/

/-- The joins of resolved relations can be planned. -/
theorem planHop_of_registered {hops : Hops} (h : hops.Registered g) (root : Entity) (key : String)
    (depth : Nat) (segment : Segment) (anchor : Anchor) (s : Session) :
    ∃ anchor' s', planHop g root key depth segment hops anchor s = .ok anchor' s' := by
  rw [planHop_apply]
  cases hj : s.join? s!"{anchor.path}.{segment.text}" with
  | some j =>
    rw [if_neg (by simp), anchorAt_apply, hj]
    exact ⟨_, _, rfl⟩
  | none =>
    obtain ⟨middle, last, hjoins⟩ := h.joinsAt anchor s!"{anchor.path}.{segment.text}"
      s!"t_{Text.natural s.next}_{Text.natural depth}_" segment
    have added : addHop g depth s!"{anchor.path}.{segment.text}" segment hops anchor s =
        .ok () (s.draw.2.addJoins (middle ++ [last])) := by
      rw [addHop_apply, hjoins]
    rw [if_pos (by rfl), Planning.bind_of_ok added, anchorAt_apply, join?_addJoins,
      find?_joinsAt hjoins, Option.or_some]
    exact ⟨_, _, rfl⟩

theorem planHops_of_registered {chain : List (Segment × Hops)}
    (h : ∀ hop ∈ chain, hop.2.Registered g) (root : Entity) (key : String) (depth : Nat)
    (anchor : Anchor) (s : Session) :
    ∃ anchor' s', planHops g root key depth anchor chain s = .ok anchor' s' := by
  induction chain generalizing depth anchor s with
  | nil => exact ⟨anchor, s, rfl⟩
  | cons hop rest ih =>
    obtain ⟨segment, hops⟩ := hop
    obtain ⟨anchor₁, s₁, hhop⟩ :=
      planHop_of_registered (h _ List.mem_cons_self) root key depth segment anchor s
    obtain ⟨anchor', s', hrest⟩ :=
      ih (fun hop hmem => h hop (List.mem_cons_of_mem _ hmem)) (depth + 1) anchor₁ s₁
    exact ⟨anchor', s', Planning.bind_eq_ok.2 ⟨anchor₁, s₁, hhop, hrest⟩⟩

/-- Planning a chain fails before anything is planned, since resolved relations can be planned. -/
theorem planChain_eq_error {chain : List Segment} {property : Option String} {e : CompileError}
    {s s' : Session} : planChain g root scope key chain property s = .error e s' ↔
      g.hops? root chain = .error e ∧ s' = s := by
  unfold planChain
  rw [Planning.lift_bind]
  cases hhops : g.hops? root chain with
  | error e' => simp [eq_comm]
  | ok found =>
    cases found with
    | none => simp [pure, EStateM.pure]
    | some hops =>
      have registered : ∀ hop ∈ chain.zip hops, hop.2.Registered g := fun hop hmem =>
        Registry.registered_of_hops? hhops hop.2 (List.of_mem_zip hmem).2
      obtain ⟨anchor, s₁, hrun⟩ :=
        planHops_of_registered registered root key 0 (.ofRoot root) s
      dsimp only
      rw [Planning.bind_of_ok hrun]
      constructor
      · intro h
        cases h
      · rintro ⟨h, -⟩
        cases h

/-- Planning a key fails if what it stands for cannot be told, or if its relations cannot be
resolved. -/
theorem planning_eq_error {e : CompileError} {s s' : Session} :
    planning g root scope key s = .error e s' ↔
      (Chain.ofKey g root key = .error e ∨ ∃ c, Chain.ofKey g root key = .ok c ∧ c ≠ .plain ∧
        g.hops? root c.segments = .error e) ∧ s' = s := by
  rw [planning, Planning.lift_bind]
  cases hc : Chain.ofKey g root key with
  | error e' => simp [eq_comm]
  | ok c =>
    cases c with
    | plain => simp [pure, EStateM.pure]
    | relations chain => simp [planChain_eq_error, Chain.segments]
    | property chain name rest => simp [planChain_eq_error, Chain.segments]

theorem planning_of_error {e : CompileError} {s s' : Session}
    (h : planning g root scope key s = .error e s') : s' = s :=
  (planning_eq_error.1 h).2

/-- Whether a key can be planned does not depend on what is planned. -/
theorem planKey_eq_error {e : CompileError} {s : Session} :
    planKey g root scope s key = .error e ↔
      Chain.ofKey g root key = .error e ∨ ∃ c, Chain.ofKey g root key = .ok c ∧ c ≠ .plain ∧
        g.hops? root c.segments = .error e := by
  have planning : planKey g root scope s key = .error e ↔
      ∃ s', planning g root scope key s = .error e s' := by
    unfold planKey
    cases Session.planning g root scope key s <;> simp
  simp only [planning, planning_eq_error, exists_and_left, exists_eq, and_true]

/-- Planning a key is all or nothing. -/
theorem planning_apply (s : Session) : planning g root scope key s =
    match planKey g root scope s key with
    | .ok s' => .ok () s'
    | .error e => .error e s := by
  unfold planKey
  cases h : planning g root scope key s with
  | ok _ s' => rfl
  | error e s' => rw [planning_of_error h]

theorem planKeys_cons (s : Session) (keys : List String) :
    planKeys g root scope s (key :: keys) =
      match planKey g root scope s key with
      | .ok s' => planKeys g root scope s' keys
      | .error e => (s, .error e) := by
  rw [planKeys, planning_apply]
  cases planKey g root scope s key <;> rfl

/-! ## Sessions that planning comes to -/

/-- The sessions that planning keys one after the other can come to. -/
inductive Reached (g : Registry) (root : Entity) : Session → Prop
  | fresh : Reached g root {}
  | key {scope : Scope} {key : String} {s s' : Session} (h : Reached g root s)
    (hkey : planKey g root scope s key = .ok s') : Reached g root s'

theorem Reached.planKeys {s : Session} (h : Reached g root s) (scope : Scope) (keys : List String) :
    Reached g root (planKeys g root scope s keys).1 := by
  induction keys generalizing s with
  | nil => exact h
  | cons key keys ih =>
    rw [planKeys_cons]
    cases hkey : planKey g root scope s key with
    | ok s' => exact ih (h.key hkey)
    | error e => exact h

/-- Also a plan that fails ends in a session that planning keys comes to. -/
theorem Reached.plan {s : Session} (h : Reached g root s) (clause : Option Members)
    (order : List String) : Reached g root (plan g root clause order s).1 := by
  unfold Session.plan
  split
  · exact h
  · rename_i keys _
    have conditions := h.planKeys .condition keys
    split
    · rename_i s' e hs
      rwa [hs] at conditions
    · rename_i s' hs
      rw [hs] at conditions
      exact conditions.planKeys .order (orderKeys root order)

theorem Reached.of_plan {clause : Option Members} {order : List String} {s : Session}
    (h : Session.plan g root clause order {} = (s, .ok ())) : Reached g root s := by
  have reached : Reached g root (Session.plan g root clause order {}).1 := fresh.plan clause order
  rwa [h] at reached

/-- A plan that succeeds has planned the keys of the conditions, and then those of the order. -/
theorem plan_eq_ok {clause : Option Members} {order : List String} {s s' : Session} :
    plan g root clause order s = (s', .ok ()) ↔ ∃ keys s₁,
      conditionKeys root (clause.getD []) = .ok keys ∧
      planKeys g root .condition s keys = (s₁, .ok ()) ∧
      planKeys g root .order s₁ (orderKeys root order) = (s', .ok ()) := by
  unfold plan
  cases conditionKeys root (clause.getD []) with
  | error e => simp
  | ok keys =>
    simp only [Except.ok.injEq, exists_and_left, exists_eq_left']
    generalize planKeys g root .condition s keys = planned
    obtain ⟨s₁, e | -⟩ := planned <;> simp

theorem planKeys_cons_eq_ok {key : String} {keys : List String} {s s' : Session} :
    planKeys g root scope s (key :: keys) = (s', .ok ()) ↔ ∃ s₁,
      planKey g root scope s key = .ok s₁ ∧ planKeys g root scope s₁ keys = (s', .ok ()) := by
  rw [planKeys_cons]
  cases planKey g root scope s key <;> simp

/-! ## Endpoints -/

theorem endpoint?_setEndpoint (s : Session) (scope scope' : Scope) (key key' : String)
    (e : Endpoint) : (s.setEndpoint scope key e).endpoint? scope' key' =
      if scope = scope' ∧ key = key' then some e else s.endpoint? scope' key' := by
  cases scope <;> cases scope' <;>
    simp only [setEndpoint, endpoint?, endpoints, Catalog.find?_put, true_and, false_and, if_false,
      reduceCtorEq] <;>
    split_ifs <;> rfl

@[simp] theorem joins_setEndpoint (s : Session) (scope : Scope) (key : String) (e : Endpoint) :
    (s.setEndpoint scope key e).joins = s.joins := by
  cases scope <;> rfl

/-- Planning joins leaves endpoints alone. -/
theorem endpoint?_planHop {depth : Nat} {segment : Segment} {hops : Hops} {s s' : Session}
    {anchor anchor' : Anchor}
    (h : planHop g root key depth segment hops anchor s = .ok anchor' s') (scope : Scope)
    (key' : String) : s'.endpoint? scope key' = s.endpoint? scope key' := by
  obtain ⟨j, -, rfl, -⟩ | ⟨stem, middle, last, -, -, -, rfl, -⟩ := planHop_cases h
  · rfl
  · rfl

/-- Planning a key says where the key arrives, or nothing. -/
theorem endpoint?_planKey {s s' : Session} (h : planKey g root scope s key = .ok s')
    {scope' : Scope} {key' : String} (hne : ¬(scope = scope' ∧ key = key')) :
    s'.endpoint? scope' key' = s.endpoint? scope' key' := by
  refine planKey_induct (I := fun t _ => t.endpoint? scope' key' = s.endpoint? scope' key')
    (fun ht hop => (endpoint?_planHop hop scope' key').trans ht) ?_ h rfl
  intro t anchor property ht
  rw [endpoint?_setEndpoint, if_neg hne, ht]

/-- In all sessions that planning comes to, keys arrive only along relations that can be joined. -/
theorem Reached.exists_hops {s : Session} (h : Reached g root s) {p : Endpoint}
    (hp : s.endpoint? scope key = some p) : ∃ c hops, Chain.ofKey g root key = .ok c ∧
      c ≠ .plain ∧ g.hops? root c.segments = .ok (some hops) := by
  induction h generalizing p with
  | fresh => cases scope <;> cases hp
  | @key scope' key' s₀ s₁ _ hkey ih =>
    by_cases same : scope' = scope ∧ key' = key
    · obtain ⟨rfl, rfl⟩ := same
      obtain rfl | ⟨c, hops, s₂, anchor, hc, hplain, hhops, -, -⟩ := planKey_cases hkey
      · exact ih hp
      · exact ⟨c, hops, hc, hplain, hhops⟩
    · exact ih ((endpoint?_planKey hkey same).symm.trans hp)

end Session

end FilterSql
