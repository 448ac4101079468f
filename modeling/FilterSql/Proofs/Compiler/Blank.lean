import FilterSql.Proofs.Compiler.Ordering
import FilterSql.Proofs.Where.Blank

/-!
# Filters without their blank members

The condition of a filter is the same without its blank members, but its plan knows their names: a
blank member whose name crosses relations is planned like any other (`blank_joined_bureau`), and
one whose name cannot be planned fails.  A filter compiles to the same statement without its blank
members if planning passes all of them by (`blank_absent`).
-/

namespace FilterSql

/-! ## Keys that are extracted -/

namespace FilterKey

variable {keep : String → Bool}

/-- Keys of which some are left out are added as if these were not there. -/
theorem filter_add (keys : List FilterKey) (k : FilterKey) :
    (add keys k).filter (fun k => keep k.key) =
      if keep k.key then add (keys.filter fun k => keep k.key) k
      else keys.filter fun k => keep k.key := by
  induction keys with
  | nil => cases hk : keep k.key <;> simp [add, hk]
  | cons first rest ih =>
    rw [add]
    by_cases same : first.key = k.key
    · rw [if_pos same]
      cases hk : keep k.key with
      | false => simp [same, hk]
      | true => simp [same, hk, add]
    · rw [if_neg same, List.filter_cons, ih, List.filter_cons]
      cases hfirst : keep first.key with
      | false => rfl
      | true =>
        cases hk : keep k.key with
        | false => rfl
        | true => simp [add, same]

theorem filter_foldl_add (ks keys : List FilterKey) :
    (ks.foldl add keys).filter (fun k => keep k.key) =
      (ks.filter fun k => keep k.key).foldl add (keys.filter fun k => keep k.key) := by
  induction ks generalizing keys with
  | nil => rfl
  | cons k ks ih =>
    rw [List.foldl_cons, ih, filter_add, List.filter_cons]
    split_ifs with hk
    · rfl
    · rfl

/-- The keys that are planned of what a tree mentions: those that are forced, or may cross
relations. -/
def asked (root : Entity) (ks : List FilterKey) : List String :=
  ((ks.foldl add []).filter fun k => k.forced || root.isRelationKey k.key).map (·.key)

theorem filter_asked (root : Entity) (ks : List FilterKey) :
    (asked root ks).filter keep = asked root (ks.filter fun k => keep k.key) := by
  have added : (ks.foldl add []).filter (keep ∘ (·.key)) =
      (ks.filter fun k => keep k.key).foldl add [] := filter_foldl_add ks []
  rw [asked, asked, List.filter_map, List.filter_comm, added]

end FilterKey

/-! ## Keys that planning passes by -/

namespace Session

variable {g : Registry} {root : Entity}

/-- Planning the key changes nothing. -/
def Idle (g : Registry) (root : Entity) (key : String) : Prop :=
  ∀ s, planKey g root .condition s key = .ok s

/-- Keys for which planning does nothing can be left out. -/
theorem planKeys_filter {keep : String → Bool} {keys : List String}
    (h : ∀ key ∈ keys, keep key = false → Idle g root key) (s : Session) :
    planKeys g root .condition s (keys.filter keep) = planKeys g root .condition s keys := by
  induction keys generalizing s with
  | nil => rfl
  | cons key keys ih =>
    obtain ⟨hkey, hkeys⟩ := List.forall_mem_cons.1 h
    rw [List.filter_cons, planKeys_cons]
    split_ifs with hk
    · rw [planKeys_cons]
      cases planKey g root .condition s key with
      | ok s' => exact ih hkeys s'
      | error e => rfl
    · rw [hkey (by simpa using hk) s]
      exact ih hkeys s

/-- The key is not planned when a tree mentions it: planning it changes nothing, or it may not cross
relations and no join directive names it. -/
def PassedBy (g : Registry) (root : Entity) (ks : List FilterKey) (key : String) : Prop :=
  Idle g root key ∨ (root.isRelationKey key = false ∧ ⟨key, true⟩ ∉ ks)

/-- Mentions of keys that are passed by can be left out of a plan. -/
theorem planKeys_asked {keep : String → Bool} {ks : List FilterKey}
    (h : ∀ key, keep key = false → PassedBy g root ks key) (s : Session) :
    planKeys g root .condition s (FilterKey.asked root (ks.filter fun k => keep k.key)) =
      planKeys g root .condition s (FilterKey.asked root ks) := by
  rw [← FilterKey.filter_asked]
  refine planKeys_filter (fun key hkey hk => (h key hk).resolve_right ?_) s
  rintro ⟨hrelation, hforced⟩
  obtain ⟨k, hmem, rfl⟩ := List.mem_map.1 hkey
  obtain ⟨hmem, hasked⟩ := List.mem_filter.1 hmem
  rw [hrelation, Bool.or_false] at hasked
  obtain ⟨name, _⟩ := k
  obtain rfl := hasked
  exact hforced ((FilterKey.forced_mem_foldl_add.1 hmem).resolve_left List.not_mem_nil)

/-- Mentions that differ in unforced mentions of keys that are passed by are planned alike. -/
theorem planKeys_asked_congr {keep : String → Bool} {ks ks' : List FilterKey}
    (h : ∀ key, keep key = false → PassedBy g root ks key)
    (hks : ks'.filter (fun k => k.forced || keep k.key) =
      ks.filter fun k => k.forced || keep k.key) (s : Session) :
    planKeys g root .condition s (FilterKey.asked root ks') =
      planKeys g root .condition s (FilterKey.asked root ks) := by
  have kept (ms : List FilterKey) : (ms.filter fun k => k.forced || keep k.key).filter
      (fun k => keep k.key) = ms.filter fun k => keep k.key := by
    rw [List.filter_filter]
    exact List.filter_congr fun k _ => by cases keep k.key <;> simp
  have h' : ∀ key, keep key = false → PassedBy g root ks' key := by
    refine fun key hkey => (h key hkey).imp_right fun ⟨hrelation, hforced⟩ => ⟨hrelation, ?_⟩
    intro hmem
    have passes : ⟨key, true⟩ ∈ ks.filter fun k => k.forced || keep k.key :=
      hks ▸ List.mem_filter.2 ⟨hmem, rfl⟩
    exact hforced (List.mem_filter.1 passes).1
  calc planKeys g root .condition s (FilterKey.asked root ks')
      = planKeys g root .condition s (FilterKey.asked root (ks'.filter fun k => keep k.key)) :=
        (planKeys_asked h' s).symm
    _ = planKeys g root .condition s (FilterKey.asked root (ks.filter fun k => keep k.key)) := by
        rw [← kept, hks, kept]
    _ = planKeys g root .condition s (FilterKey.asked root ks) := planKeys_asked h s

theorem conditionKeys_eq (root : Entity) (ms : Members) :
    conditionKeys root ms = (FilterKey.mentions ms).map (FilterKey.asked root) := by
  rw [conditionKeys, FilterKey.ofClause]
  cases FilterKey.mentions ms <;> rfl

/-- Leaving the blank member out of the tree leaves plans alone: it is a group, a join directive
without paths, or a key that is passed by. -/
def Dispensable (g : Registry) (root : Entity) (ms : Members) : String × Json → Prop
  | (name, value) => isGroup name = true ∨ (name = joinDirective ∧ value = .arr []) ∨
    (name ≠ exprDirective ∧ name ≠ joinDirective ∧
      ∀ ks, FilterKey.mentions ms = .ok ks → PassedBy g root ks name)

theorem Dispensable.rejects {ms : Members} {m : String × Json} {p : FilterKey → Bool}
    (h : Dispensable g root ms m)
    (hp : (∀ ks, FilterKey.mentions ms = .ok ks → PassedBy g root ks m.1) →
      p ⟨m.1, false⟩ = false) :
    FilterKey.Rejects p m :=
  h.imp_right (Or.imp_right fun ⟨hexpr, hjoin, hpassed⟩ => ⟨hexpr, hjoin, hp hpassed⟩)

/-- A plan does not depend on blank members that are dispensable. -/
theorem plan_compact {below : Bool} {ms : Members}
    (h : ∀ m ∈ ms.blanks, Dispensable g root ms m) (order : List String) (s : Session) :
    plan g root (some (ms.compact below)) order s = plan g root (some ms) order s := by
  classical
  simp only [plan, Option.getD_some, conditionKeys_eq]
  cases hks : FilterKey.mentions ms with
  | error e =>
    have mentions : (FilterKey.mentions (ms.compact below)).map (List.filter fun _ => false) =
        (FilterKey.mentions ms).map (List.filter fun _ => false) :=
      FilterKey.mentions_compact ms fun m hm => (h m hm).rejects fun _ => rfl
    rw [hks] at mentions
    rw [map_eq_error.1 mentions]
  | ok ks =>
    let keep (key : String) : Bool := !decide (PassedBy g root ks key)
    have mentions : (FilterKey.mentions (ms.compact below)).map
        (List.filter fun k => k.forced || keep k.key) =
        (FilterKey.mentions ms).map (List.filter fun k => k.forced || keep k.key) := by
      refine FilterKey.mentions_compact ms fun m hm => (h m hm).rejects fun hpassed => ?_
      simpa [keep] using hpassed ks hks
    rw [hks] at mentions
    obtain ⟨ks', hks', hfilter⟩ := map_eq_ok.1 mentions
    rw [hks']
    dsimp only [Except.map]
    rw [planKeys_asked_congr (fun key hkey => by simpa [keep] using hkey) hfilter]

end Session

namespace Compiler

variable {c : Compiler} {root : Entity} {below : Bool} {ms : Members}

theorem condition_compact (hops : below = true → c.operators = .standard) (s : Session) :
    c.condition root s (some (ms.compact below)) = c.condition root s (some ms) :=
  View.compile_compact hops ms

theorem planned_compact (h : ∀ m ∈ ms.blanks, Session.Dispensable c.registry root ms m)
    (order : List String) :
    c.planned root (some (ms.compact below)) order = c.planned root (some ms) order := by
  rw [planned, planned, Session.plan_compact h]

/-- Blank members never matter to the condition under a plan.  They do not matter to a statement
either if leaving them out leaves plans alone. -/
theorem blank_absent {entity : String} (hroot : c.registry.entity? entity = some root)
    (below : Bool) (hops : below = true → c.operators = .standard) (ms : Members) :
    (∀ s, c.condition root s (some (ms.compact below)) = c.condition root s (some ms)) ∧
    ((∀ m ∈ ms.blanks, Session.Dispensable c.registry root ms m) →
      (∀ f : Filter, c.select entity { f with condition := some (.obj (ms.compact below)) } =
        c.select entity { f with condition := some (.obj ms) }) ∧
      c.count entity (some (.obj (ms.compact below))) = c.count entity (some (.obj ms))) := by
  have condition (s : Session) : c.condition root s (some (ms.compact below)) =
      c.condition root s (some ms) := condition_compact hops s
  refine ⟨condition, fun h => ⟨fun f => ?_, ?_⟩⟩
  · rw [select_eq hroot, select_eq hroot]
    refine congrArg _ ?_
    have conditions (ms : Members) :
        Filter.conditions? { f with condition := some (.obj ms) } = some ms := rfl
    simp only [buildSelect, conditions, planned_compact h, condition]
    rfl
  · rw [count_eq hroot, count_eq hroot]
    refine congrArg _ ?_
    have conditions (ms : Members) :
        Filter.conditions? { condition := some (.obj ms) } = some ms := rfl
    simp only [buildCount, conditions, planned_compact h, condition]

/-- Blank members of all kinds that can be left out, and a condition on projects. -/
def sparseClause : Members := [("id", .str ""), ("and", .arr []), ("$join", .arr []),
  ("or", .obj [("id", .arr []), ("projects.title", .str "a")])]

theorem dispensable_sparseClause {root : Entity} (h : root.isRelationKey "id" = false) :
    ∀ m ∈ sparseClause.blanks, Session.Dispensable bureau.registry root sparseClause m := by
  have blanks : sparseClause.blanks =
      [("id", .str ""), ("and", .arr []), ("$join", .arr []), ("id", .arr [])] := rfl
  have mentions : FilterKey.mentions sparseClause =
      .ok [⟨"id", false⟩, ⟨"id", false⟩, ⟨"projects.title", false⟩] := rfl
  have key (value : Json) :
      Session.Dispensable bureau.registry root sparseClause ("id", value) := by
    refine .inr (.inr ⟨by decide, by decide, fun ks hks => .inr ⟨h, ?_⟩⟩)
    obtain rfl := Except.ok.inj (mentions.symm.trans hks)
    decide
  intro m hm
  rw [blanks] at hm
  simp only [List.mem_cons, List.not_mem_nil, or_false] at hm
  obtain rfl | rfl | rfl | rfl := hm
  · exact key (.str "")
  · exact .inl rfl
  · exact .inr (.inl ⟨rfl, rfl⟩)
  · exact key (.arr [])

/-- A blank member on the projects of organizations.  It has no condition, but it is joined. -/
def blankClause : Members := [("projects.title", .str "")]

/-- The identifier of organizations crosses no relations.  The condition on their projects, which is
blank, joins them. -/
theorem bureau_blanks : ∃ root ∈ bureau.registry.entity? "Org",
    root.isRelationKey "id" = false ∧
    (bureau.select "Org" { condition := some (.obj blankClause) }).map (·.text) =
      .ok ("select \"org\".\"id\" from \"org\" left join \"project\" as \"t_0_0_project\" " ++
        "on \"org\".\"id\" = \"t_0_0_project\".\"orgId\" group by \"org\".\"id\" " ++
        "order by \"org\".\"id\" asc") ∧
    (bureau.select "Org" { condition := some (.obj []) }).map (·.text) =
      .ok "select \"org\".\"id\" from \"org\" order by \"org\".\"id\" asc" := by
  decide +kernel

theorem blank_absent_bureau : ∃ root, bureau.registry.entity? "Org" = some root ∧
    bureau.operators = .standard ∧
    sparseClause.compact true = [("or", .obj [("projects.title", .str "a")])] ∧
    (∀ m ∈ sparseClause.blanks, Session.Dispensable bureau.registry root sparseClause m) ∧
    (∀ s, bureau.condition root s (some (sparseClause.compact true)) =
      bureau.condition root s (some sparseClause)) ∧
    (∀ f : Filter,
      bureau.select "Org" { f with condition := some (.obj (sparseClause.compact true)) } =
        bureau.select "Org" { f with condition := some (.obj sparseClause) }) ∧
    bureau.count "Org" (some (.obj (sparseClause.compact true))) =
      bureau.count "Org" (some (.obj sparseClause)) := by
  obtain ⟨root, hroot, hkey, -⟩ := bureau_blanks
  have dispensable := dispensable_sparseClause hkey
  obtain ⟨condition, absent⟩ := blank_absent hroot true (fun _ => rfl) sparseClause
  exact ⟨root, hroot, rfl, rfl, dispensable, condition, absent dispensable⟩

/-- The condition on projects has nothing left without its blank member, but another statement. -/
theorem blank_joined_bureau : ∃ st st', blankClause.compact true = [] ∧
    bureau.select "Org" { condition := some (.obj blankClause) } = .ok st ∧
    bureau.select "Org" { condition := some (.obj (blankClause.compact true)) } = .ok st' ∧
    st.text = "select \"org\".\"id\" from \"org\" left join \"project\" as \"t_0_0_project\" " ++
      "on \"org\".\"id\" = \"t_0_0_project\".\"orgId\" group by \"org\".\"id\" " ++
      "order by \"org\".\"id\" asc" ∧
    st'.text = "select \"org\".\"id\" from \"org\" order by \"org\".\"id\" asc" := by
  obtain ⟨-, -, -, htext, htext'⟩ := bureau_blanks
  obtain ⟨st, hst, htext⟩ := map_eq_ok.1 htext
  obtain ⟨st', hst', htext'⟩ := map_eq_ok.1 htext'
  exact ⟨st, st', rfl, hst, hst', htext, htext'⟩

end Compiler

end FilterSql
