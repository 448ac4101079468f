import FilterSql.Proofs.Plan.Exact

/-!
# Plans that fail

Planning a key fails before it plans anything, since resolved relations can be planned
(`planning_apply`).  So a plan that fails has planned the keys before the one that fails, and
nothing of that one (`plan_atomic`).
-/

namespace FilterSql.Session

variable {g : Registry} {root : Entity} {scope : Scope} {key : String} {s s' : Session}

/-- The key needs no joins: it is plain, or crosses a relation that is hidden or is a list of keys
in one column. -/
def Skipped (g : Registry) (root : Entity) (key : String) : Prop :=
  Chain.ofKey g root key = .ok .plain ∨ ∃ c, Chain.ofKey g root key = .ok c ∧
    ∃ x : Crossing, x.chain <+: c.segments ∧ x.Barred g root

theorem Skipped.hops?_ne (h : Skipped g root key) {c : Chain} (hc : Chain.ofKey g root key = .ok c)
    (hplain : c ≠ .plain) (hops : List Hops) : g.hops? root c.segments ≠ .ok (some hops) := by
  intro hhops
  obtain hplain' | ⟨c', hc', x, hx, hbarred⟩ := h
  · exact hplain (Except.ok.inj (hc.symm.trans hplain'))
  · obtain rfl := Except.ok.inj (hc.symm.trans hc')
    obtain ⟨-, last, hreached⟩ := Chain.ofKey_reached hc
    exact Crossing.not_barred_of_hops? hhops hreached hx hbarred

/-- Planning a key that needs no joins changes nothing. -/
theorem Skipped.planKey (h : Skipped g root key) (hkey : planKey g root scope s key = .ok s') :
    s' = s := by
  obtain rfl | ⟨c, hops, s₁, anchor, hc, hplain, hhops, -, -⟩ := planKey_cases hkey
  · rfl
  · exact absurd hhops (h.hops?_ne hc hplain hops)

/-! ## Keys in turn -/

/-- The keys that a plan goes through, with what they are used for: those of conditions that are
forced or may cross relations, and then those of the order that may. -/
def askedKeys (root : Entity) (keys : List FilterKey) (order : List String) :
    List (Scope × String) :=
  (keys.filter fun k => k.forced || root.isRelationKey k.key).map (fun k => (.condition, k.key)) ++
    ((order.map orderKey).filter fun key => root.isRelationKey key).map fun key => (.order, key)

/-- The planning of keys in turn. -/
def plannings (g : Registry) (root : Entity) (keys : List (Scope × String)) : Planning Unit :=
  keys.forM fun k => planning g root k.1 k.2

theorem plannings_cons (scope : Scope) (key : String) (keys : List (Scope × String)) :
    plannings g root ((scope, key) :: keys) =
      (planning g root scope key >>= fun _ => plannings g root keys) := rfl

theorem plannings_append (keys more : List (Scope × String)) :
    plannings g root (keys ++ more) =
      (plannings g root keys >>= fun _ => plannings g root more) :=
  List.forM_append

/-- The session in which planning ends, and whether it succeeds. -/
def outcome (x : Planning Unit) (s : Session) : Session × Except CompileError Unit :=
  match x s with
  | .ok () s' => (s', .ok ())
  | .error e s' => (s', .error e)

theorem outcome_bind (x y : Planning Unit) (s : Session) :
    outcome (x >>= fun _ => y) s = match outcome x s with
      | (s', .ok ()) => outcome y s'
      | (s', .error e) => (s', .error e) := by
  unfold outcome
  rw [Planning.bind_apply]
  cases x s <;> rfl

/-- Keys are planned one after the other, up to the first that fails. -/
theorem planKeys_eq (scope : Scope) (keys : List String) (s : Session) :
    planKeys g root scope s keys =
      outcome (plannings g root (keys.map fun key => (scope, key))) s := by
  induction keys generalizing s with
  | nil => rfl
  | cons key keys ih =>
    rw [planKeys, List.map_cons, plannings_cons, outcome_bind, outcome]
    cases planning g root scope key s with
    | ok _ s₁ => exact ih s₁
    | error e s₁ => rfl

/-- A plan goes through the keys of conditions, and then through those of the order. -/
theorem plan_eq {clause : Option Members} {order : List String} {keys : List FilterKey}
    (h : FilterKey.ofClause (clause.getD []) = .ok keys) (s : Session) :
    plan g root clause order s = outcome (plannings g root (askedKeys root keys order)) s := by
  have asked : conditionKeys root (clause.getD []) =
      .ok ((keys.filter fun k => k.forced || root.isRelationKey k.key).map (·.key)) := by
    rw [conditionKeys, h]
    rfl
  rw [plan, asked, askedKeys, plannings_append, outcome_bind]
  dsimp only
  rw [planKeys_eq, List.map_map, Function.comp_def]
  generalize outcome (plannings g root _) s = conditions
  obtain ⟨s₁, e | -⟩ := conditions
  · rfl
  · exact planKeys_eq .order _ s₁

/-- Keys of which one fails are planned up to that one. -/
theorem plannings_eq_error {keys : List (Scope × String)} {e : CompileError}
    (h : plannings g root keys s = .error e s') : ∃ before scope key after,
      keys = before ++ (scope, key) :: after ∧ plannings g root before s = .ok () s' ∧
      planning g root scope key s' = .error e s' := by
  induction keys generalizing s with
  | nil => cases h
  | cons k keys ih =>
    obtain ⟨scope, key⟩ := k
    rw [plannings_cons] at h
    cases hkey : planning g root scope key s with
    | ok _ s₁ =>
      rw [Planning.bind_of_ok hkey] at h
      obtain ⟨before, scope', key', after, rfl, hbefore, hfails⟩ := ih h
      refine ⟨(scope, key) :: before, scope', key', after, rfl, ?_, hfails⟩
      rw [plannings_cons, Planning.bind_of_ok hkey, hbefore]
    | error e' s₁ =>
      rw [Planning.bind_apply, hkey] at h
      obtain ⟨rfl, rfl⟩ := EStateM.Result.error.inj h
      obtain rfl := planning_of_error hkey
      exact ⟨[], scope, key, keys, rfl, rfl, hkey⟩

/-- Planning a key that fails, or that needs no joins, leaves the session as it was.  A plan that
fails has not started, or has planned in turn the keys before the first that fails. -/
theorem plan_atomic (g : Registry) (root : Entity) (s : Session) :
    (∀ scope key e s', planning g root scope key s = .error e s' → s' = s) ∧
    (∀ scope key s', Skipped g root key → planning g root scope key s = .ok () s' → s' = s) ∧
    ∀ clause order e s', plan g root clause order s = (s', .error e) →
      (FilterKey.ofClause (clause.getD []) = .error e ∧ s' = s) ∨
      ∃ keys before scope key after, FilterKey.ofClause (clause.getD []) = .ok keys ∧
        askedKeys root keys order = before ++ (scope, key) :: after ∧
        plannings g root before s = .ok () s' ∧ planning g root scope key s' = .error e s' := by
  refine ⟨fun scope key e s' => planning_of_error, fun scope key s' hskipped h => ?_,
    fun clause order e s' h => ?_⟩
  · exact hskipped.planKey (planning_eq_ok.1 h)
  cases hkeys : FilterKey.ofClause (clause.getD []) with
  | error e' =>
    rw [plan, conditionKeys, hkeys] at h
    obtain ⟨rfl, he⟩ := Prod.mk.inj h
    obtain rfl := Except.error.inj he
    exact .inl ⟨rfl, rfl⟩
  | ok keys =>
    rw [plan_eq hkeys, outcome] at h
    cases hrun : plannings g root (askedKeys root keys order) s with
    | ok _ s₁ =>
      rw [hrun] at h
      cases h
    | error e' s₁ =>
      rw [hrun] at h
      obtain ⟨rfl, he⟩ := Prod.mk.inj h
      obtain rfl := Except.error.inj he
      obtain ⟨before, scope, key, after, hasked, hbefore, hfails⟩ := plannings_eq_error hrun
      exact .inr ⟨keys, before, scope, key, after, rfl, hasked, hbefore, hfails⟩

theorem plan_atomic_organizations : ∃ root s e, organizations.entity? "Org" = some root ∧
    plan organizations root (some organizationClause) ["projects.tags.color"] {} = (s, .error e) ∧
    e = .propertyNotOnTarget "color" "Tag" "projects.tags" ∧
    s.joins.map (·.path) = ["Org.projects"] ∧
    ∃ keys before scope key after, FilterKey.ofClause organizationClause = .ok keys ∧
      askedKeys root keys ["projects.tags.color"] = before ++ (scope, key) :: after ∧
      plannings organizations root before {} = .ok () s ∧
      planning organizations root scope key s = .error e s := by
  have outcome : (organizations.entity? "Org").map (fun root =>
      ((plan organizations root (some organizationClause) ["projects.tags.color"] {}).map
        (fun s => s.joins.map (·.path)) id)) =
      some (["Org.projects"], .error (.propertyNotOnTarget "color" "Tag" "projects.tags")) := by
    decide +kernel
  have extracted : (FilterKey.ofClause organizationClause).isOk = true := by decide +kernel
  obtain ⟨root, hroot, h⟩ := Option.map_eq_some_iff.1 outcome
  generalize hplan :
    plan organizations root (some organizationClause) ["projects.tags.color"] {} = planned at h
  obtain ⟨s, r⟩ := planned
  obtain ⟨hpaths, rfl⟩ := Prod.mk.inj h
  obtain ⟨hnone, -⟩ | split := (plan_atomic organizations root {}).2.2 _ _ _ _ hplan
  · rw [Option.getD_some] at hnone
    rw [hnone] at extracted
    cases extracted
  · exact ⟨root, s, _, hroot, hplan, rfl, hpaths, split⟩

end FilterSql.Session
