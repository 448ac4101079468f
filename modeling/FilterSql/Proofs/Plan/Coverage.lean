import FilterSql.Proofs.Plan.Mentions
import FilterSql.Proofs.Plan.Steps
import FilterSql.Proofs.Where.Lookups

/-!
# Keys that are looked up are planned

A plan knows the keys that a tree mentions (`FilterKey.ofClause`).  Those are all keys that
compiling the tree looks up, but for keys below operators of another key (`mem_mentions`).  A key
that goes on to a property along relations that can be joined arrives at a registered entity, and so
stands for something once it is planned (`Session.Arrives`).  `Session.plan_covers` puts the two
together.
-/

namespace FilterSql

/-! ## Keys that a tree mentions -/

namespace FilterKey

/-- What a member looks up, operators of keys aside, it mentions. -/
theorem mem_ofMember {name : String} {value : Json} {ks : List FilterKey} {group : List String}
    (hg : groupMentions value = .ok ks → ∀ key ∈ group, key ∈ ks.map (·.key))
    (h : ofMemberOrGroup name value = .ok ks) {key : String}
    (hkey : key ∈ Lookup.member name value group []) : key ∈ ks.map (·.key) := by
  unfold Lookup.member at hkey
  split_ifs at hkey with hblank hname hexpr
  · cases hkey
  · exact hg (by rwa [ofMemberOrGroup, if_pos hname] at h) key hkey
  · subst hexpr
    obtain ⟨⟨op, left, right⟩, hvalue, rfl⟩ := map_eq_ok.1 h
    simpa [ofOperands_eq, Lookup.operands, hvalue] using hkey
  · have hjoin : name ≠ joinDirective := fun hjoin => hblank (by simp [hjoin])
    have mentioned : ofMember name value = .ok [⟨name, false⟩] := by
      rw [ofMember, if_neg hexpr, if_neg hjoin]
    rw [ofMemberOrGroup, if_neg hname, mentioned] at h
    obtain rfl := Except.ok.inj h
    simpa using hkey

theorem mem_append {ks more : List FilterKey} {xs ys : List String}
    (hx : ∀ key ∈ xs, key ∈ ks.map (·.key)) (hy : ∀ key ∈ ys, key ∈ more.map (·.key)) :
    ∀ key ∈ xs ++ ys, key ∈ (ks ++ more).map (·.key) := by
  intro key hkey
  rw [List.map_append, List.mem_append]
  exact (List.mem_append.1 hkey).imp (hx key) (hy key)

-- The recursion is that of `FilterKey.mentions` and of the functions that are defined with it.
mutual

/-- A clause mentions the keys that it looks up, but for those below operators of another key. -/
theorem mem_mentions : ∀ (ms : Members) (ks : List FilterKey), mentions ms = .ok ks →
    ∀ key ∈ Lookup.members false ms, key ∈ ks.map (·.key)
  | [], _, _, _, hkey => by cases hkey
  | (name, value) :: rest, ks, h, key, hkey => by
    rw [mentions_cons] at h
    obtain ⟨here, more, hhere, hmore, rfl⟩ := both_eq_ok.1 h
    exact mem_append (fun _ => mem_ofMember (mem_groupMentions value here) hhere)
      (mem_mentions rest more hmore) key hkey

theorem mem_groupMentions : ∀ (j : Json) (ks : List FilterKey), groupMentions j = .ok ks →
    ∀ key ∈ Lookup.group false j, key ∈ ks.map (·.key)
  | .obj ms, ks, h => mem_mentions ms ks h
  | .arr xs, ks, h => mem_armMentions xs ks h
  | .null, _, _ | .bool _, _, _ | .num _, _, _ | .str _, _, _ => by simp [Lookup.group]

theorem mem_armMentions : ∀ (xs : List Json) (ks : List FilterKey), armMentions xs = .ok ks →
    ∀ key ∈ Lookup.arms false xs, key ∈ ks.map (·.key)
  | [], _, _, _, hkey => by cases hkey
  | x :: xs, ks, h, key, hkey => by
    rw [armMentions_cons] at h
    obtain ⟨here, more, hhere, hmore, rfl⟩ := both_eq_ok.1 h
    exact mem_append (mem_elementMentions x here hhere) (mem_armMentions xs more hmore) key hkey

theorem mem_elementMentions : ∀ (j : Json) (ks : List FilterKey), elementMentions j = .ok ks →
    ∀ key ∈ Lookup.element false j, key ∈ ks.map (·.key)
  | .obj ms, ks, h => mem_mentions ms ks h
  | .null, _, _ | .bool _, _, _ | .num _, _, _ | .str _, _, _ | .arr _, _, _ => by
    simp [Lookup.element]

end

/-- The extracted keys of a tree are all that it looks up, but for those below operators of another
key. -/
theorem mem_ofClause {clause : Option Members} {keys : List FilterKey}
    (h : ofClause (clause.getD []) = .ok keys) {key : String} (hkey : key ∈ lookups false clause) :
    key ∈ keys.map (·.key) := by
  cases clause with
  | none => cases hkey
  | some ms =>
    obtain ⟨ks, hks, rfl⟩ := map_eq_ok.1 h
    rw [keys_foldl_add, List.mem_eraseDups]
    exact mem_mentions ms ks hks key hkey

end FilterKey

/-! ## Keys that go on to a property -/

/-- A key that goes on to a property after relations has a point in between. -/
theorem Chain.isRelationKey_of_ofKey {g : Registry} {root : Entity} {key name rest : String}
    {chain : List Segment} (h : Chain.ofKey g root key = .ok (.property chain name rest)) :
    root.isRelationKey key = true := by
  obtain ⟨segments, hsegments, h⟩ := bind_eq_ok.1 h
  obtain ⟨w, hw, h⟩ := bind_eq_ok.1 h
  obtain ⟨hchain, hrest⟩ := Walk.ne_nil_of_chain? h
  by_contra hkey
  -- Without a point there is but one segment, which cannot be on both sides.
  have plain : '.' ∉ key.toList := by
    rw [Entity.isRelationKey, Bool.or_eq_true, not_or, Bool.not_eq_true, List.any_eq_false] at hkey
    exact fun hdot => hkey.1 '.' hdot (by simp)
  obtain ⟨s, rfl⟩ : ∃ s, segments = [s] := by
    unfold Segment.ofKey at hsegments
    rw [List.splitOn_eq_singleton plain] at hsegments
    cases hs : Segment.ofChars? key.toList with
    | none => simp [hs] at hsegments
    | some s => exact ⟨s, by simpa [hs] using hsegments.symm⟩
  have short := congrArg List.length (walk_append hw)
  have := List.length_pos_of_ne_nil hchain
  have := List.length_pos_of_ne_nil hrest
  rw [List.length_append, List.length_singleton] at short
  omega

/-! ## Where keys arrive -/

namespace Session

variable {g : Registry} {root : Entity} {s s' : Session} {scope : Scope} {key rest : String}

/-- All joins of the session are of registered entities, and so is the table that is planned
from. -/
def Registered (g : Registry) (s : Session) (anchor : Anchor) : Prop :=
  (∀ j ∈ s.joins, ∃ e, g.entity? j.target = some e) ∧ ∃ e, g.entity? anchor.entity = some e

/-- The joins of a relation are of registered entities. -/
theorem registered_joinsAt {anchor : Anchor} {path stem : String} {segment : Segment} {hops : Hops}
    {middle : List Join} {last : Join}
    (h : g.joinsAt anchor path stem segment hops = .ok (middle, last)) :
    ∀ j ∈ middle ++ [last], ∃ e, g.entity? j.target = some e := by
  have joined {anchor : Anchor} {path relation : String} {keys : JoinKeys} {j : Join}
      (hj : g.joinAt anchor path stem relation keys = .ok j) :
      ∃ e, g.entity? j.target = some e := by
    obtain ⟨target, htarget, rfl⟩ := Registry.joinAt_eq_ok.1 hj
    exact ⟨target, htarget⟩
  obtain ⟨keys, -, rfl, hlast⟩ | ⟨table, target, half, -, rfl, hhalf, hlast⟩ :=
    Registry.joinsAt_cases h
  · simpa using joined hlast
  · simpa using ⟨joined hhalf, joined hlast⟩

theorem Registered.planHop {depth : Nat} {segment : Segment} {hops : Hops} {anchor anchor' : Anchor}
    (h : s.Registered g anchor)
    (hop : Session.planHop g root key depth segment hops anchor s = .ok anchor' s') :
    s'.Registered g anchor' := by
  obtain ⟨j, hj, rfl, rfl⟩ | ⟨stem, middle, last, -, -, hjoins, rfl, rfl⟩ := planHop_cases hop
  · exact ⟨h.1, h.1 j (join?_eq_some hj).1⟩
  have joined := registered_joinsAt hjoins
  exact ⟨fun j hj => (List.mem_append.1 hj).elim (h.1 j) (joined j), joined last (by simp)⟩

theorem Registered.planKey (hroot : g.entity? root.name = some root)
    (h : s.Registered g (.ofRoot root)) (hkey : Session.planKey g root scope s key = .ok s') :
    s'.Registered g (.ofRoot root) := by
  refine planKey_induct (I := Registered g) Registered.planHop ?_ hkey h
  intro t anchor property ht
  exact ⟨by simpa using ht.1, root, hroot⟩

/-- The condition of the key is about a property of a registered entity. -/
def Arrives (g : Registry) (key rest : String) (s : Session) : Prop :=
  ∃ endpoint entity, s.endpoint? .condition key = some endpoint ∧ endpoint.property = some rest ∧
    g.entity? endpoint.entity = some entity

/-- The key goes on to a property, along relations that are visible and can be joined. -/
def Joinable (g : Registry) (root : Entity) (key rest : String) : Prop :=
  ∃ chain name hops, Chain.ofKey g root key = .ok (.property chain name rest) ∧
    g.hops? root chain = .ok (some hops)

/-- Planning a key that can be joined plans its relations and says where it arrives. -/
theorem Joinable.planKey (hj : Joinable g root key rest)
    (hkey : Session.planKey g root scope s key = .ok s') :
    ∃ (chain : List (Segment × Hops)) (anchor : Anchor) (s₁ : Session),
      planHops g root key 0 (.ofRoot root) chain s = .ok anchor s₁ ∧
      s' = s₁.setEndpoint scope key ⟨anchor.stem, anchor.label, anchor.entity, some rest⟩ := by
  obtain ⟨chain, name, hops, hof, hhops⟩ := hj
  obtain ⟨c, hc, hcase⟩ := planKey_eq_ok.1 hkey
  obtain rfl := Except.ok.inj (hof.symm.trans hc)
  obtain ⟨hplain, -⟩ | ⟨-, hchain⟩ := hcase
  · cases hplain
  obtain ⟨hnone, -⟩ | ⟨hops', s₁, anchor, -, hrun, rfl⟩ := planChain_eq_ok.1 hchain
  · exact absurd (Except.ok.inj (hhops.symm.trans hnone)) (by simp)
  · exact ⟨chain.zip hops', anchor, s₁, hrun, rfl⟩

theorem arrives_planKey (hs : s.Registered g (.ofRoot root)) (hj : Joinable g root key rest)
    (hkey : planKey g root .condition s key = .ok s') : s'.Arrives g key rest := by
  obtain ⟨chain, anchor, s₁, hrun, rfl⟩ := hj.planKey hkey
  obtain ⟨-, entity, hentity⟩ : s₁.Registered g anchor :=
    planHops_induct Registered.planHop hrun hs
  exact ⟨_, entity, by rw [endpoint?_setEndpoint, if_pos ⟨rfl, rfl⟩], rfl, hentity⟩

/-- A key that arrives does so whatever is planned after it. -/
theorem Arrives.planKey {key' : String} (h : s.Arrives g key rest)
    (hs : s.Registered g (.ofRoot root)) (hj : Joinable g root key rest)
    (hkey : Session.planKey g root scope s key' = .ok s') : s'.Arrives g key rest := by
  by_cases again : scope = .condition ∧ key' = key
  · obtain ⟨rfl, rfl⟩ := again
    exact arrives_planKey hs hj hkey
  obtain ⟨endpoint, entity, hendpoint, hrest, hentity⟩ := h
  exact ⟨endpoint, entity, (endpoint?_planKey hkey again).trans hendpoint, hrest, hentity⟩

theorem Arrives.planKeys {keys : List String} (hroot : g.entity? root.name = some root)
    (h : s.Arrives g key rest) (hs : s.Registered g (.ofRoot root)) (hj : Joinable g root key rest)
    (hkeys : Session.planKeys g root scope s keys = (s', .ok ())) : s'.Arrives g key rest := by
  induction keys generalizing s with
  | nil =>
    obtain rfl := (Prod.mk.inj hkeys).1
    exact h
  | cons k keys ih =>
    obtain ⟨s₁, hkey, hkeys⟩ := planKeys_cons_eq_ok.1 hkeys
    exact ih (h.planKey hs hj hkey) (hs.planKey hroot hkey) hkeys

/-- Of the keys that are planned each arrives, if it goes on to a property and can be joined. -/
theorem arrives_planKeys {keys : List String} (hroot : g.entity? root.name = some root)
    (hs : s.Registered g (.ofRoot root))
    (hkeys : planKeys g root .condition s keys = (s', .ok ())) :
    s'.Registered g (.ofRoot root) ∧
      ∀ key ∈ keys, ∀ rest, Joinable g root key rest → s'.Arrives g key rest := by
  induction keys generalizing s with
  | nil =>
    obtain rfl := (Prod.mk.inj hkeys).1
    exact ⟨hs, by simp⟩
  | cons k keys ih =>
    obtain ⟨s₁, hkey, hmore⟩ := planKeys_cons_eq_ok.1 hkeys
    have hs₁ := hs.planKey hroot hkey
    obtain ⟨hs', harrives⟩ := ih hs₁ hmore
    refine ⟨hs', fun key hmem rest hj => ?_⟩
    obtain rfl | hmem := List.mem_cons.1 hmem
    · exact (arrives_planKey hs hj hkey).planKeys hroot hs₁ hj hmore
    · exact harrives key hmem rest hj

/-- A key that arrives stands for something. -/
theorem Arrives.resolveKey {operators : Operators} (h : s.Arrives g key rest) :
    ∃ e, View.resolveKey ⟨g, root, s, operators⟩ key = .ok (some e) := by
  obtain ⟨⟨stem, label, name, property⟩, entity, hendpoint, hproperty, hentity⟩ := h
  obtain rfl : property = some rest := hproperty
  unfold View.resolveKey
  dsimp only
  split_ifs
  · exact ⟨_, rfl⟩
  · exact ⟨_, rfl⟩
  · rw [hendpoint]
    dsimp only
    rw [ofSchema_eq_ok.2 (Registry.entity_eq_ok.2 hentity)]
    exact ⟨_, rfl⟩

/-- A plan that succeeds knows the keys that compiling the tree looks up, but for keys below
operators of another key: without such keys, what the tree compiles to depends on the keys that the
plan knows only.  Each of these stands for something if it goes on to a property along relations
that are visible and can be joined. -/
theorem plan_covers {clause : Option Members} {order : List String}
    (hroot : g.entity? root.name = some root)
    (h : plan g root clause order {} = (s, .ok ())) :
    ∃ keys, FilterKey.ofClause (clause.getD []) = .ok keys ∧
      (∀ key ∈ lookups false clause, key ∈ keys.map (·.key)) ∧
      (lookups true clause ⊆ lookups false clause → ∀ v : View, v.operators = .standard →
        View.Agree ⟨g, root, s, .standard⟩ v (keys.map (·.key)) →
        View.compile ⟨g, root, s, .standard⟩ clause = v.compile clause) ∧
      ∀ key ∈ keys.map (·.key), ∀ rest, Joinable g root key rest →
        ∃ e, View.resolveKey ⟨g, root, s, .standard⟩ key = .ok (some e) := by
  obtain ⟨planned, s₁, hplanned, hconditions, horders⟩ := plan_eq_ok.1 h
  obtain ⟨keys, hkeys, rfl⟩ := map_eq_ok.1 hplanned
  have known (key : String) : key ∈ lookups false clause → key ∈ keys.map (·.key) :=
    FilterKey.mem_ofClause hkeys
  refine ⟨keys, hkeys, known, fun hbelow v hv hagree => ?_, fun key hkey rest hj => ?_⟩
  · exact View.compile_congr rfl hv fun key hkey => hagree key (known key (hbelow hkey))
  have start : Registered g {} (.ofRoot root) := ⟨by simp, root, hroot⟩
  obtain ⟨hs₁, harrives⟩ := arrives_planKeys hroot start hconditions
  obtain ⟨k, hk, rfl⟩ := List.mem_map.1 hkey
  have crosses : root.isRelationKey k.key = true := by
    obtain ⟨chain, name, hops, hof, -⟩ := hj
    exact Chain.isRelationKey_of_ofKey hof
  have asked : k.key ∈ (keys.filter fun k => k.forced || root.isRelationKey k.key).map (·.key) :=
    List.mem_map_of_mem (List.mem_filter.2 ⟨hk, by simp [crosses]⟩)
  exact ((harrives k.key asked rest hj).planKeys hroot hs₁ hj horders).resolveKey

/-- A studio, which has films. -/
def studio : Entity where
  name := "Studio"
  properties := [{ name := "id", isId := true }, { name := "name" }]
  relations := .ofList [("films", .direct ⟨.hasMany, "Film", none, none, none⟩)]

/-- Studios and films. -/
def studios : Registry := ⟨.ofList [studio, {
  name := "Film"
  properties := [{ name := "id", isId := true }, { name := "title" }, { name := "studioId" }] }]⟩

theorem joinable_films : Joinable studios studio "films.title" "title" := by
  have chain : Chain.ofKey studios studio "films.title" =
      .ok (.property [⟨"films", none⟩] "title" "title") := by decide +kernel
  have hops : (studios.hops? studio [⟨"films", none⟩]).map Option.isSome = .ok true := by
    decide +kernel
  obtain ⟨hops?, hhops, hsome⟩ := map_eq_ok.1 hops
  obtain ⟨hops, rfl⟩ := Option.isSome_iff_exists.1 hsome
  exact ⟨_, _, hops, chain, hhops⟩

/-- Keys across a relation in a group, and in a comparison of operands. -/
def studioClause : Members := [
  ("or", .arr [.obj [("films.title", .str "a")], .obj [("name", .str "b")]]),
  ("$expr", .obj [("=", .arr [.str "$films.title", .str "$name"])])]

theorem plan_covers_studios : ∃ s, studios.entity? studio.name = some studio ∧
    plan studios studio (some studioClause) [] {} = (s, .ok ()) ∧
    lookups true (some studioClause) = ["films.title", "name", "films.title", "name"] ∧
    ∃ e, View.resolveKey ⟨studios, studio, s, .standard⟩ "films.title" = .ok (some e) := by
  have registered : studios.entity? studio.name = some studio := by decide +kernel
  have succeeds : (plan studios studio (some studioClause) [] {}).2 = .ok () := by decide +kernel
  have mentioned : FilterKey.ofClause studioClause =
      .ok [⟨"films.title", false⟩, ⟨"name", false⟩] := by decide +kernel
  generalize hplan : plan studios studio (some studioClause) [] {} = planned at succeeds
  obtain ⟨s, r⟩ := planned
  obtain rfl : r = .ok () := succeeds
  obtain ⟨keys, hkeys, -, -, hresolve⟩ := plan_covers registered hplan
  obtain rfl := Except.ok.inj (mentioned.symm.trans hkeys)
  exact ⟨s, registered, rfl, by decide +kernel, hresolve _ (by simp) _ joinable_films⟩

/-- A group below an operator of a key, with a key across a relation. -/
def studioGroupClause : Members := [
  ("films.id", .int 7), ("name", .obj [("or", .obj [("films.title", .str "a")])])]

/-- A key below an operator of another key is looked up, but the plan does not know it, and its
condition is left out. -/
theorem plan_misses_studios : ∃ s e, studios.entity? studio.name = some studio ∧
    plan studios studio (some studioGroupClause) [] {} = (s, .ok ()) ∧
    "films.title" ∈ lookups true (some studioGroupClause) ∧
    FilterKey.ofClause studioGroupClause = .ok [⟨"films.id", false⟩, ⟨"name", false⟩] ∧
    Joinable studios studio "films.title" "title" ∧
    View.resolveKey ⟨studios, studio, s, .standard⟩ "films.title" = .ok none ∧
    View.compile ⟨studios, studio, s, .standard⟩ (some studioGroupClause) = .ok (some e) ∧
    (e.render .sqlite).text = "\"t_0_0_film\".\"id\" = ?" := by
  have succeeds : (plan studios studio (some studioGroupClause) [] {}).2 = .ok () := by
    decide +kernel
  have dropped : (View.resolveKey ⟨studios, studio,
      (plan studios studio (some studioGroupClause) [] {}).1, .standard⟩ "films.title").map
        Option.isSome = .ok false := by decide +kernel
  have text : (View.compile ⟨studios, studio,
      (plan studios studio (some studioGroupClause) [] {}).1, .standard⟩
        (some studioGroupClause)).map (Option.map fun e => (e.render .sqlite).text) =
      .ok (some "\"t_0_0_film\".\"id\" = ?") := by decide +kernel
  generalize hplan : plan studios studio (some studioGroupClause) [] {} = planned
    at succeeds dropped text
  obtain ⟨s, r⟩ := planned
  obtain rfl : r = .ok () := succeeds
  obtain ⟨found, hfound, hnone⟩ := map_eq_ok.1 dropped
  obtain rfl : found = none := by simpa using hnone
  obtain ⟨e?, he, htext⟩ := map_eq_ok.1 text
  obtain ⟨e, rfl, htext⟩ := Option.map_eq_some_iff.1 htext
  exact ⟨s, e, by decide +kernel, rfl, by decide +kernel, by decide +kernel, joinable_films, hfound,
    he, Option.some.inj htext⟩

end Session

end FilterSql
