import FilterSql.Proofs.Plan.Arrivals
import FilterSql.Proofs.Plan.Atomic

/-!
# Planning again

Planning only adds joins after those there are, so what is found by its path stays there.  A chain
whose joins are all planned leads along them (`Session.trail`), and a key that has been planned is
settled, whatever is planned after it (`Settled.attempts`): to plan it again finds the same joins,
sets the endpoint that is set, and fails if it failed before.  So a plan can be run again on the
session in which it ended, with the same outcome (`planning_again`).
-/

namespace FilterSql.Session

variable {g : Registry} {root : Entity} {scope scope' : Scope} {key key' : String} {s s' : Session}

/-! ## Joins are only added -/

theorem joins_prefix_planHop {depth : Nat} {segment : Segment} {hops : Hops}
    {anchor anchor' : Anchor}
    (hop : planHop g root key depth segment hops anchor s = .ok anchor' s') :
    s.joins <+: s'.joins := by
  obtain ⟨-, -, rfl, -⟩ | ⟨stem, middle, last, -, -, -, rfl, -⟩ := planHop_cases hop
  · exact List.prefix_rfl
  · exact List.prefix_append _ _

theorem joins_prefix_planHops {depth : Nat} {chain : List (Segment × Hops)}
    {anchor anchor' : Anchor} (h : planHops g root key depth anchor chain s = .ok anchor' s') :
    s.joins <+: s'.joins :=
  planHops_induct (I := fun t _ => s.joins <+: t.joins)
    (fun ht hop => ht.trans (joins_prefix_planHop hop)) h List.prefix_rfl

theorem joins_prefix_planKey (h : planKey g root scope s key = .ok s') : s.joins <+: s'.joins := by
  refine planKey_induct (I := fun t _ => s.joins <+: t.joins)
    (fun ht hop => ht.trans (joins_prefix_planHop hop)) ?_ h List.prefix_rfl
  intro t anchor property ht
  rwa [joins_setEndpoint]

theorem joins_prefix_planKeys {keys : List String}
    (h : planKeys g root scope s keys = (s', .ok ())) : s.joins <+: s'.joins := by
  induction keys generalizing s with
  | nil =>
    obtain rfl := (Prod.mk.inj h).1
    exact List.prefix_rfl
  | cons key keys ih =>
    obtain ⟨s₁, hkey, hkeys⟩ := planKeys_cons_eq_ok.1 h
    exact (joins_prefix_planKey hkey).trans (ih hkeys)

/-- Planning a key changes nothing, unless there are joins afterwards. -/
theorem eq_or_joins_ne_nil (h : planKey g root scope s key = .ok s') : s' = s ∨ s'.joins ≠ [] := by
  obtain rfl | ⟨c, hops, s₁, anchor, hc, hplain, hhops, hrun, rfl⟩ := planKey_cases h
  · exact .inl rfl
  obtain ⟨segments, w, -, -, -, -, hne⟩ := Chain.walk_of_ofKey hc hplain
  have ends : s₁.EndsAt root c.segments anchor :=
    planHops_along (I := fun done t a => t.EndsAt root done a)
      (fun _ _ _ hends hhop => hends.planHop hhop) hhops (endsAt_root root s) hrun
  obtain ⟨j, hj, -⟩ := ends.2 hne
  rw [joins_setEndpoint]
  exact .inr (List.ne_nil_of_mem (join?_eq_some hj).1)

theorem join?_of_prefix (h : s.joins <+: s'.joins) {path : String} {j : Join}
    (hj : s.join? path = some j) : s'.join? path = some j :=
  h.find?_eq_some hj

/-! ## Chains of planned joins -/

/-- The table at the end of a chain of relations, if all their joins are planned. -/
def trail (s : Session) : Anchor → List Segment → Option Anchor
  | anchor, [] => some anchor
  | anchor, t :: rest => do
    let j ← s.join? s!"{anchor.path}.{t.text}"
    s.trail (.ofJoin j) rest

theorem trail_cons {anchor anchor' : Anchor} {t : Segment} {rest : List Segment} :
    s.trail anchor (t :: rest) = some anchor' ↔
      ∃ j, s.join? s!"{anchor.path}.{t.text}" = some j ∧ s.trail (.ofJoin j) rest = some anchor' :=
  Option.bind_eq_some_iff

theorem trail_of_prefix (h : s.joins <+: s'.joins) {anchor anchor' : Anchor} {chain : List Segment}
    (ht : s.trail anchor chain = some anchor') : s'.trail anchor chain = some anchor' := by
  induction chain generalizing anchor with
  | nil => exact ht
  | cons t rest ih =>
    obtain ⟨j, hj, hrest⟩ := trail_cons.1 ht
    exact trail_cons.2 ⟨j, join?_of_prefix h hj, ih hrest⟩

/-- A chain that has been planned leads where its planning came to. -/
theorem trail_of_planHops {chain : List (Segment × Hops)} {depth : Nat} {anchor anchor' : Anchor}
    (h : planHops g root key depth anchor chain s = .ok anchor' s') :
    s'.trail anchor (chain.map Prod.fst) = some anchor' := by
  induction chain generalizing depth anchor s with
  | nil =>
    obtain ⟨rfl, -⟩ := Planning.pure_eq_ok.1 h
    rfl
  | cons hop rest ih =>
    obtain ⟨segment, hops⟩ := hop
    obtain ⟨anchor₁, s₁, hhop, hrest⟩ := Planning.bind_eq_ok.1 h
    obtain ⟨j, hj, rfl⟩ := arrives_planHop hhop
    exact trail_cons.2 ⟨j, join?_of_prefix (joins_prefix_planHops hrest) hj, ih hrest⟩

/-- To plan a chain whose joins are all planned changes nothing. -/
theorem planHops_of_trail {chain : List (Segment × Hops)} {anchor anchor' : Anchor}
    (h : s.trail anchor (chain.map Prod.fst) = some anchor') (depth : Nat) :
    planHops g root key depth anchor chain s = .ok anchor' s := by
  induction chain generalizing anchor depth with
  | nil => exact Planning.pure_eq_ok.2 ⟨Option.some.inj h, rfl⟩
  | cons hop rest ih =>
    obtain ⟨segment, hops⟩ := hop
    obtain ⟨j, hj, hrest⟩ := trail_cons.1 h
    have reused : planHop g root key depth segment hops anchor s = .ok (.ofJoin j) s := by
      rw [planHop_apply, anchorAt_apply, hj]
      rfl
    exact Planning.bind_eq_ok.2 ⟨_, s, reused, ih hrest (depth + 1)⟩

/-- To set the endpoint that is set changes nothing. -/
theorem setEndpoint_of_endpoint? {p : Endpoint} (h : s.endpoint? scope key = some p) :
    s.setEndpoint scope key p = s := by
  obtain ⟨⟨name, e⟩, hfind, rfl⟩ := Option.map_eq_some_iff.1 h
  have hname : name = key := by simpa using List.find?_some hfind
  subst hname
  have same := Catalog.put_of_find? hfind
  cases scope with
  | condition => rw [setEndpoint, show s.conditions.put (name, e) = s.conditions from same]
  | order => rw [setEndpoint, show s.orders.put (name, e) = s.orders from same]

/-! ## Keys that have been planned -/

/-- The joins of the key are planned, if it needs any, and it arrives at the last of them. -/
def Settled (g : Registry) (root : Entity) (scope : Scope) (key : String) (s : Session) : Prop :=
  ∀ c hops, Chain.ofKey g root key = .ok c → c ≠ .plain →
    g.hops? root c.segments = .ok (some hops) →
    ∃ anchor, s.trail (.ofRoot root) ((c.segments.zip hops).map Prod.fst) = some anchor ∧
      s.endpoint? scope key = some ⟨anchor.stem, anchor.label, anchor.entity, c.rest?⟩

theorem settled_planKey (h : planKey g root scope s key = .ok s') :
    s'.Settled g root scope key := by
  intro c hops hc hplain hhops
  obtain ⟨c', hc', hcase⟩ := planKey_eq_ok.1 h
  obtain rfl := Except.ok.inj (hc.symm.trans hc')
  obtain ⟨hplain', -⟩ | ⟨-, hchain⟩ := hcase
  · exact absurd hplain' hplain
  obtain ⟨hnone, -⟩ | ⟨hops', s₁, anchor, hhops', hrun, rfl⟩ := planChain_eq_ok.1 hchain
  · cases hhops.symm.trans hnone
  obtain rfl := Option.some.inj (Except.ok.inj (hhops.symm.trans hhops'))
  have joins : s₁.joins <+: (s₁.setEndpoint scope key
      ⟨anchor.stem, anchor.label, anchor.entity, c.rest?⟩).joins :=
    (joins_setEndpoint s₁ scope key _).symm ▸ List.prefix_rfl
  exact ⟨anchor, trail_of_prefix joins (trail_of_planHops hrun),
    by rw [endpoint?_setEndpoint, if_pos ⟨rfl, rfl⟩]⟩

/-- A key that is settled stays so when another is planned. -/
theorem Settled.planKey (h : s.Settled g root scope key)
    (hkey : Session.planKey g root scope' s key' = .ok s') : s'.Settled g root scope key := by
  by_cases again : scope' = scope ∧ key' = key
  · obtain ⟨rfl, rfl⟩ := again
    exact settled_planKey hkey
  intro c hops hc hplain hhops
  obtain ⟨anchor, htrail, hendpoint⟩ := h c hops hc hplain hhops
  exact ⟨anchor, trail_of_prefix (joins_prefix_planKey hkey) htrail,
    (endpoint?_planKey hkey again).trans hendpoint⟩

/-- To plan a settled key again changes nothing. -/
theorem Settled.eq_of_planKey (h : s.Settled g root scope key)
    (hkey : Session.planKey g root scope s key = .ok s') : s' = s := by
  obtain rfl | ⟨c, hops, s₁, anchor, hc, hplain, hhops, hrun, rfl⟩ := planKey_cases hkey
  · rfl
  obtain ⟨anchor', htrail, hendpoint⟩ := h c hops hc hplain hhops
  rw [planHops_of_trail htrail] at hrun
  obtain ⟨rfl, rfl⟩ := EStateM.Result.ok.inj hrun
  exact setEndpoint_of_endpoint? hendpoint

/-! ## Outcomes -/

theorem outcome_planning (s : Session) : outcome (planning g root scope key) s =
    match planKey g root scope s key with
    | .ok s' => (s', .ok ())
    | .error e => (s, .error e) := by
  rw [outcome, planning_apply]
  cases planKey g root scope s key <;> rfl

/-- A key is settled once it has been planned, also if that failed. -/
theorem settled_outcome (g : Registry) (root : Entity) (scope : Scope) (key : String)
    (s : Session) : (outcome (planning g root scope key) s).1.Settled g root scope key := by
  rw [outcome_planning]
  cases hkey : planKey g root scope s key with
  | ok s' => exact settled_planKey hkey
  | error e =>
    -- A key that fails has no joins to plan.
    intro c hops hc hplain hhops
    obtain hfails | ⟨c', hc', -, hfails⟩ := planKey_eq_error.1 hkey
    · cases hc.symm.trans hfails
    · obtain rfl := Except.ok.inj (hc.symm.trans hc')
      cases hhops.symm.trans hfails

theorem Settled.outcome (h : s.Settled g root scope key) (scope' : Scope) (key' : String) :
    (Session.outcome (planning g root scope' key') s).1.Settled g root scope key := by
  rw [outcome_planning]
  cases hkey : Session.planKey g root scope' s key' with
  | ok s' => exact h.planKey hkey
  | error e => exact h

/-- A settled key comes to the outcome that it had in any other session, and changes nothing. -/
theorem Settled.outcome_eq (h : s.Settled g root scope key) (s₀ : Session) :
    Session.outcome (planning g root scope key) s =
      (s, (Session.outcome (planning g root scope key) s₀).2) := by
  rw [outcome_planning, outcome_planning]
  cases hkey : Session.planKey g root scope s key with
  | ok s' =>
    obtain rfl := h.eq_of_planKey hkey
    cases hkey₀ : Session.planKey g root scope s₀ key with
    | ok s₁ => rfl
    | error e => cases hkey.symm.trans (planKey_eq_error.2 (planKey_eq_error.1 hkey₀))
  | error e => rw [planKey_eq_error.2 (planKey_eq_error.1 hkey)]

/-- The session after keys are planned in turn, whether or not each succeeds. -/
def attempts (g : Registry) (root : Entity) (keys : List (Scope × String)) (s : Session) :
    Session :=
  keys.foldl (fun s k => (outcome (planning g root k.1 k.2) s).1) s

theorem Settled.attempts (h : s.Settled g root scope key) (keys : List (Scope × String)) :
    (Session.attempts g root keys s).Settled g root scope key := by
  induction keys generalizing s with
  | nil => exact h
  | cons k keys ih => exact ih (h.outcome k.1 k.2)

theorem outcome_plannings_cons (scope : Scope) (key : String) (keys : List (Scope × String))
    (s : Session) : outcome (plannings g root ((scope, key) :: keys)) s =
      match outcome (planning g root scope key) s with
      | (s', .ok ()) => outcome (plannings g root keys) s'
      | (s', .error e) => (s', .error e) := by
  rw [plannings_cons]
  exact outcome_bind _ _ s

theorem Settled.plannings (h : s.Settled g root scope key) (keys : List (Scope × String)) :
    (Session.outcome (Session.plannings g root keys) s).1.Settled g root scope key := by
  induction keys generalizing s with
  | nil => exact h
  | cons k keys ih =>
    have settled := h.outcome k.1 k.2
    rw [outcome_plannings_cons]
    rcases hplanned : Session.outcome (planning g root k.1 k.2) s with ⟨s₁, e | ⟨⟩⟩
    · rwa [hplanned] at settled
    · rw [hplanned] at settled
      exact ih settled

/-- Keys that are planned in turn again come to the same outcome. -/
theorem plannings_again (g : Registry) (root : Entity) (keys : List (Scope × String))
    (s : Session) : outcome (plannings g root keys) (outcome (plannings g root keys) s).1 =
      outcome (plannings g root keys) s := by
  induction keys generalizing s with
  | nil => rfl
  | cons k keys ih =>
    obtain ⟨scope, key⟩ := k
    have settled := settled_outcome g root scope key s
    rcases hplanned : outcome (planning g root scope key) s with ⟨s₁, e | ⟨⟩⟩
    · rw [hplanned] at settled
      rw [outcome_plannings_cons scope key keys s, hplanned]
      dsimp only
      rw [outcome_plannings_cons, settled.outcome_eq s, hplanned]
    · -- The first key is settled in the session in which the others end.
      rw [hplanned] at settled
      rw [outcome_plannings_cons scope key keys s, hplanned]
      dsimp only
      rw [outcome_plannings_cons, (settled.plannings keys).outcome_eq s, hplanned]
      exact ih s₁

/-- Planning a key only adds joins after those there are.  Once it has been planned, and whatever is
planned after it, planning it again has the same outcome and changes nothing.  So has a plan that is
run again on the session in which it ended, also if it failed. -/
theorem planning_again (g : Registry) (root : Entity) (s : Session) :
    (∀ scope key, s.joins <+: (outcome (planning g root scope key) s).1.joins) ∧
    (∀ scope key others, ∃ t,
      attempts g root others (outcome (planning g root scope key) s).1 = t ∧
      outcome (planning g root scope key) t =
        (t, (outcome (planning g root scope key) s).2)) ∧
    ∀ clause order, plan g root clause order (plan g root clause order s).1 =
      plan g root clause order s := by
  refine ⟨fun scope key => ?_, fun scope key others => ?_, fun clause order => ?_⟩
  · rw [outcome_planning]
    cases hkey : planKey g root scope s key with
    | ok s' => exact joins_prefix_planKey hkey
    | error e => exact List.prefix_rfl
  · have settled := (settled_outcome g root scope key s).attempts others
    exact ⟨_, rfl, settled.outcome_eq s⟩
  · cases hkeys : FilterKey.ofClause (clause.getD []) with
    | ok keys =>
      rw [plan_eq hkeys, plan_eq hkeys]
      exact plannings_again g root (askedKeys root keys order) s
    | error e =>
      have fails (t : Session) : plan g root clause order t = (t, .error e) := by
        rw [plan, conditionKeys, hkeys]
        rfl
      rw [fails, fails]

end FilterSql.Session
