import FilterSql.Proofs.Plan.Steps

/-!
# Planning over more entities

A registry that has one more entity, under a new name (`Registry.Extends`), differs from the other
only for who looks up that name, and there the look-up over the other fails.  Every step of planning
hands such a failure on.  So a plan over both registries is the same, unless the plan over the
smaller one fails for want of the new entity (`Registry.Extends.plan`).
-/

namespace FilterSql

/-- The error says that there is no entity of the name. -/
inductive SchemaError.Misses (name : String) : SchemaError → Prop
  | unknown : Misses name (.unknownEntity name)
  | target (owner relation : String) : Misses name (.unregisteredTarget owner relation name)

/-- The error says that the schema has no entity of the name. -/
inductive CompileError.Misses (name : String) : CompileError → Prop
  | schema {e : SchemaError} (h : e.Misses name) : Misses name (.schema e)

theorem SameUnless.ofSchema {α : Type} {name : String} {x y : Except SchemaError α}
    (h : SameUnless (SchemaError.Misses name) x y) :
    SameUnless (CompileError.Misses name) (CompileError.ofSchema x) (CompileError.ofSchema y) := by
  cases h with
  | same x => exact .same _
  | error h y => exact .error (.schema h) _

namespace Registry

/-- The second registry has one more entity, under a name that is new to the first. -/
structure Extends (g : Registry) (name : String) (g' : Registry) : Prop where
  fresh : g.entity? name = none
  other : ∀ n, n ≠ name → g'.entity? n = g.entity? n

/-- An entity can be added under a new name, and only there look-ups change. -/
theorem exists_register {g : Registry} {e : Entity} (h : g.contains e.name = false) :
    ∃ g', g.register e = .ok g' ∧ g.Extends e.name g' := by
  refine ⟨⟨g.entities.put e⟩, by simp [register, h], ?_, fun n hn => ?_⟩
  · simpa [contains, Catalog.contains, entity?] using h
  · rw [entity?, Catalog.find?_put, if_neg hn.symm]
    rfl

namespace Extends

variable {g g' : Registry} {name : String}

/-- What is found is still found. -/
theorem entity? (h : g.Extends name g') {n : String} {e : Entity} (he : g.entity? n = some e) :
    g'.entity? n = some e := by
  rw [h.other n, he]
  rintro rfl
  cases h.fresh.symm.trans he

theorem entity (h : g.Extends name g') (n : String) :
    SameUnless (SchemaError.Misses name) (g.entity n) (g'.entity n) := by
  unfold Registry.entity
  by_cases hn : n = name
  · subst hn
    rw [h.fresh]
    exact .error .unknown _
  · rw [h.other n hn]
    exact .same _

theorem targetOf (h : g.Extends name g') (owner : Entity) (relation target : String) :
    SameUnless (SchemaError.Misses name) (g.targetOf owner relation target)
      (g'.targetOf owner relation target) := by
  unfold Registry.targetOf
  by_cases hn : target = name
  · subst hn
    rw [h.fresh]
    exact .error (.target owner.name relation) _
  · rw [h.other target hn]
    exact .same _

/-! ## Chains of relations -/

theorem resolveDirect (h : g.Extends name g') (owner : Entity) (relation : String)
    (tag : Option String) (r : DirectRelation) :
    SameUnless (SchemaError.Misses name) (g.resolveDirect owner relation tag r)
      (g'.resolveDirect owner relation tag r) := by
  unfold Registry.resolveDirect
  split
  · exact .same _
  · exact (h.targetOf owner relation (tag.getD r.target)).bind fun _ _ => .same _

theorem resolveThrough (h : g.Extends name g') (owner : Entity) (relation : String)
    (tag : Option String) (r : ThroughRelation) :
    SameUnless (SchemaError.Misses name) (g.resolveThrough owner relation tag r)
      (g'.resolveThrough owner relation tag r) := by
  refine (h.targetOf owner relation r.through.entity).bind fun _ _ => ?_
  refine (h.targetOf owner relation r.target).bind fun _ _ => ?_
  exact (h.targetOf owner relation (tag.getD r.target)).bind fun _ _ => .same _

theorem resolve (h : g.Extends name g') (owner : Entity) (relation : String)
    (tag : Option String) :
    SameUnless (SchemaError.Misses name) (g.resolve owner relation tag)
      (g'.resolve owner relation tag) := by
  unfold Registry.resolve
  split
  · exact .same _
  · exact (h.resolveDirect owner relation tag _).map _
  · exact (h.resolveThrough owner relation tag _).map _

theorem hops? (h : g.Extends name g') (owner : Entity) (chain : List Segment) :
    SameUnless (CompileError.Misses name) (g.hops? owner chain) (g'.hops? owner chain) := by
  induction chain generalizing owner with
  | nil => exact .same _
  | cons s rest ih =>
    unfold Registry.hops?
    split
    · exact .same _
    · refine (h.resolve owner s.name s.tag).ofSchema.bind fun hops _ => ?_
      refine (h.entity hops.last.entity).ofSchema.bind fun next _ => ?_
      exact (ih next).bind fun _ _ => .same _

theorem walk (h : g.Extends name g') (key : String) (current : Entity) (polymorphic : Bool)
    (previous : Option Segment) (segments : List Segment) :
    SameUnless (CompileError.Misses name)
      (FilterSql.walk g key current polymorphic previous segments)
      (FilterSql.walk g' key current polymorphic previous segments) := by
  induction segments generalizing current polymorphic previous with
  | nil => exact .same _
  | cons s rest ih =>
    rw [FilterSql.walk, FilterSql.walk]
    split
    · exact .same _
    · split
      · exact .same _
      · split
        · exact .same _
        · refine (h.targetOf current s.name _).ofSchema.bind fun next _ => ?_
          exact (ih next _ (some s)).bind fun _ _ => .same _

/-- What a key stands for. -/
theorem chain (h : g.Extends name g') (root : Entity) (key : String) :
    SameUnless (CompileError.Misses name) (Chain.ofKey g root key) (Chain.ofKey g' root key) := by
  refine SameUnless.bind (.same _) fun segments _ => ?_
  exact (h.walk key root false none segments).bind fun _ _ => .same _

/-! ## Plans -/

section

variable {root : Entity} {scope : Scope} {key : String} {s s' : Session}

theorem joinAt (h : g.Extends name g') {anchor : Anchor} {path stem relation : String}
    {keys : JoinKeys} {j : Join} (hj : g.joinAt anchor path stem relation keys = .ok j) :
    g'.joinAt anchor path stem relation keys = .ok j := by
  obtain ⟨target, htarget, hj⟩ := joinAt_eq_ok.1 hj
  exact joinAt_eq_ok.2 ⟨target, h.entity? htarget, hj⟩

theorem joinsAt (h : g.Extends name g') {anchor : Anchor} {path stem : String} {segment : Segment}
    {hops : Hops} {joins : List Join × Join}
    (hjoins : g.joinsAt anchor path stem segment hops = .ok joins) :
    g'.joinsAt anchor path stem segment hops = .ok joins := by
  cases hops with
  | direct keys =>
    obtain ⟨j, hj, hjoins⟩ := bind_eq_ok.1 hjoins
    exact bind_eq_ok.2 ⟨j, h.joinAt hj, hjoins⟩
  | through table target =>
    obtain ⟨half, hhalf, hjoins⟩ := bind_eq_ok.1 hjoins
    obtain ⟨j, hj, hjoins⟩ := bind_eq_ok.1 hjoins
    exact bind_eq_ok.2 ⟨half, h.joinAt hhalf, bind_eq_ok.2 ⟨j, h.joinAt hj, hjoins⟩⟩

/-- Joins that can be planned over the smaller registry are planned alike over the other. -/
theorem planHop (h : g.Extends name g') {depth : Nat} {segment : Segment} {hops : Hops}
    {anchor anchor' : Anchor}
    (hop : Session.planHop g root key depth segment hops anchor s = .ok anchor' s') :
    Session.planHop g' root key depth segment hops anchor s = .ok anchor' s' := by
  rw [← hop, Session.planHop_apply, Session.planHop_apply]
  obtain ⟨j, hj, -, -⟩ | ⟨stem, middle, last, -, rfl, hjoins, -, -⟩ := Session.planHop_cases hop
  · rw [hj]
    rfl
  · rw [Planning.bind_apply, Planning.bind_apply, Session.addHop_apply, Session.addHop_apply,
      hjoins, h.joinsAt hjoins]

theorem planHops (h : g.Extends name g') {chain : List (Segment × Hops)} {depth : Nat}
    {anchor anchor' : Anchor}
    (hrun : Session.planHops g root key depth anchor chain s = .ok anchor' s') :
    Session.planHops g' root key depth anchor chain s = .ok anchor' s' := by
  induction chain generalizing depth anchor s with
  | nil => exact hrun
  | cons hop rest ih =>
    obtain ⟨anchor₁, s₁, hhop, hrest⟩ := Planning.bind_eq_ok.1 hrun
    exact Planning.bind_eq_ok.2 ⟨anchor₁, s₁, h.planHop hhop, ih hrest⟩

theorem planChain (h : g.Extends name g') {chain : List Segment} {property : Option String}
    (hchain : Session.planChain g root scope key chain property s = .ok () s') :
    Session.planChain g' root scope key chain property s = .ok () s' := by
  obtain ⟨hhops, rfl⟩ | ⟨hops, s₁, anchor, hhops, hrun, rfl⟩ := Session.planChain_eq_ok.1 hchain
  · exact Session.planChain_eq_ok.2 (.inl ⟨(h.hops? root chain).eq_ok hhops, rfl⟩)
  · exact Session.planChain_eq_ok.2
      (.inr ⟨hops, s₁, anchor, (h.hops? root chain).eq_ok hhops, h.planHops hrun, rfl⟩)

theorem planKey (h : g.Extends name g') (root : Entity) (scope : Scope) (s : Session)
    (key : String) :
    SameUnless (CompileError.Misses name) (Session.planKey g root scope s key)
      (Session.planKey g' root scope s key) := by
  cases hkey : Session.planKey g root scope s key with
  | ok s' =>
    obtain ⟨c, hc, hcase⟩ := Session.planKey_eq_ok.1 hkey
    have planned : Session.planKey g' root scope s key = .ok s' :=
      Session.planKey_eq_ok.2 ⟨c, (h.chain root key).eq_ok hc,
        hcase.imp_right fun ⟨hplain, hchain⟩ => ⟨hplain, h.planChain hchain⟩⟩
    rw [planned]
    exact .same _
  | error e =>
    -- A key that fails fails for what it stands for, or for a relation on its way.
    have fails : e.Misses name ∨ Session.planKey g' root scope s key = .error e := by
      obtain hc | ⟨c, hc, hplain, hhops⟩ := Session.planKey_eq_error.1 hkey
      · exact ((h.chain root key).eq_error hc).imp_right fun hc' =>
          Session.planKey_eq_error.2 (.inl hc')
      · exact ((h.hops? root c.segments).eq_error hhops).imp_right fun hhops' =>
          Session.planKey_eq_error.2 (.inr ⟨c, (h.chain root key).eq_ok hc, hplain, hhops'⟩)
    obtain hmissed | same := fails
    · exact .error hmissed _
    · rw [same]
      exact .same _

/-- Keys in turn come to the same session, also if one of them fails. -/
theorem planKeys (h : g.Extends name g') (root : Entity) (scope : Scope) (s : Session)
    (keys : List String) :
    (∃ e, (Session.planKeys g root scope s keys).2 = .error e ∧ e.Misses name) ∨
      Session.planKeys g' root scope s keys = Session.planKeys g root scope s keys := by
  induction keys generalizing s with
  | nil => exact .inr rfl
  | cons key keys ih =>
    rw [Session.planKeys_cons, Session.planKeys_cons]
    have planned := h.planKey root scope s key
    cases hkey : Session.planKey g root scope s key with
    | ok s₁ =>
      rw [planned.eq_ok hkey]
      exact ih s₁
    | error e =>
      obtain hmissed | same := planned.eq_error hkey
      · exact .inl ⟨e, rfl, hmissed⟩
      · rw [same]
        exact .inr rfl

/-- A plan over the two registries is the same, unless over the smaller one it fails for want of the
new entity. -/
theorem plan (h : g.Extends name g') (root : Entity) (clause : Option Members)
    (order : List String) (s : Session) :
    (∃ e, (Session.plan g root clause order s).2 = .error e ∧ e.Misses name) ∨
      Session.plan g' root clause order s = Session.plan g root clause order s := by
  unfold Session.plan
  cases Session.conditionKeys root (clause.getD []) with
  | error e => exact .inr rfl
  | ok keys =>
    dsimp only
    obtain ⟨e, he, hmissed⟩ | same := h.planKeys root .condition s keys
    · generalize Session.planKeys g root .condition s keys = conditions at he ⊢
      obtain ⟨s₁, r⟩ := conditions
      obtain rfl : r = .error e := he
      exact .inl ⟨e, rfl, hmissed⟩
    · rw [same]
      generalize Session.planKeys g root .condition s keys = conditions
      obtain ⟨s₁, e | -⟩ := conditions
      · exact .inr rfl
      · exact h.planKeys root .order s₁ (Session.orderKeys root order)

end

end Extends

end Registry

end FilterSql
