import FilterSql.Path.Chain
import FilterSql.Proofs.Outcome
import Mathlib.Tactic.Common

/-!
# Walks along relations

The relations of a chain lead from entity to entity (`Registry.reached?`), each to its tag or else
to its declared target.  `Registry.Leads` adds where tags may stand: on the last relation, if its
target is chosen by row.  A walk takes segments as long as they name relations, and succeeds just in
case those that it takes lead somewhere (`walk_eq_ok_iff`).
-/

namespace FilterSql

/-- The entity at the end of a chain of relations. -/
def Registry.reached? (g : Registry) : Entity → List Segment → Option Entity
  | owner, [] => some owner
  | owner, s :: rest => do
    let r ← owner.relation? s.name
    let next ← g.entity? (s.tag.getD r.target)
    g.reached? next rest

/-- The relation at the end of a chain. -/
def Registry.lastRelation? (g : Registry) (owner : Entity) (chain : List Segment) :
    Option Relation := do
  let s ← chain.getLast?
  let e ← g.reached? owner chain.dropLast
  e.relation? s.name

/-- A tag stands only on a relation whose target is chosen by row. -/
def Relation.Admits (r : Relation) (s : Segment) : Prop :=
  s.tag.isSome = true → r.isPolymorphic = true

/-- The chain leads along relations to the entity.  Only the last of them may have a tag, and only if
its target is chosen by row. -/
structure Registry.Leads (g : Registry) (owner : Entity) (chain : List Segment) (last : Entity) :
    Prop where
  reached : g.reached? owner chain = some last
  untagged : ∀ s ∈ chain.dropLast, s.tag = none
  admits : ∀ s ∈ chain.getLast?, ∀ r ∈ g.lastRelation? owner chain, r.Admits s

namespace Registry

variable {g : Registry} {owner next last : Entity} {s : Segment} {rest chain : List Segment}
  {r : Relation}

theorem reached?_cons_eq_some : g.reached? owner (s :: rest) = some last ↔ ∃ r next,
    owner.relation? s.name = some r ∧ g.entity? (s.tag.getD r.target) = some next ∧
    g.reached? next rest = some last := by
  simp only [reached?, Option.bind_eq_bind, Option.bind_eq_some_iff]
  grind

theorem reached?_append (owner : Entity) (xs ys : List Segment) :
    g.reached? owner (xs ++ ys) = (g.reached? owner xs).bind fun e => g.reached? e ys := by
  induction xs generalizing owner with
  | nil => rfl
  | cons s xs ih =>
    simp only [List.cons_append, reached?, Option.bind_eq_bind, Option.bind_assoc, ih]

/-- Each segment of a chain names a relation of a registered entity. -/
theorem declared_of_reached? (h : g.reached? owner chain = some last)
    (howner : owner ∈ g.entities.items) (hs : s ∈ chain) :
    ∃ e ∈ g.entities.items, e.relation? s.name ≠ none := by
  induction chain generalizing owner with
  | nil => cases hs
  | cons t rest ih =>
    obtain ⟨r, next, hr, hnext, hrest⟩ := reached?_cons_eq_some.1 h
    obtain rfl | hs := List.mem_cons.1 hs
    · exact ⟨owner, howner, by simp [hr]⟩
    · exact ih hrest (List.mem_of_find?_eq_some hnext) hs

theorem targetOf_eq_ok {target : Entity} {relation name : String} :
    g.targetOf owner relation name = .ok target ↔ g.entity? name = some target := by
  unfold targetOf
  split <;> simp_all

theorem lastRelation?_singleton (g : Registry) (owner : Entity) (s : Segment) :
    g.lastRelation? owner [s] = owner.relation? s.name := rfl

theorem lastRelation?_append (g : Registry) (owner : Entity) (chain : List Segment) (s : Segment) :
    g.lastRelation? owner (chain ++ [s]) =
      (g.reached? owner chain).bind fun e => e.relation? s.name := by
  simp [lastRelation?]

/-- A chain that leads somewhere has a last relation, unless it is empty. -/
theorem exists_lastRelation? (h : g.reached? owner chain = some last) (hne : chain ≠ []) :
    ∃ r, g.lastRelation? owner chain = some r := by
  rw [← List.dropLast_append_getLast hne, reached?_append, Option.bind_eq_some_iff] at h
  obtain ⟨e, he, h⟩ := h
  obtain ⟨r, -, hr, -⟩ := reached?_cons_eq_some.1 h
  refine ⟨r, ?_⟩
  rw [← List.dropLast_append_getLast hne, lastRelation?_append, he]
  exact hr

/-- The last relation of a chain is that of the chain after its first relation. -/
theorem lastRelation?_cons (hr : owner.relation? s.name = some r)
    (hnext : g.entity? (s.tag.getD r.target) = some next) (hne : chain ≠ []) :
    g.lastRelation? owner (s :: chain) = g.lastRelation? next chain := by
  obtain ⟨t, rest, rfl⟩ := List.exists_cons_of_ne_nil hne
  simp [lastRelation?, reached?, hr, hnext]

theorem leads_nil (g : Registry) (owner : Entity) : g.Leads owner [] owner :=
  ⟨rfl, by simp, by simp⟩

/-- A chain leads along its first relation, and on from the entity there. -/
theorem leads_cons_iff : g.Leads owner (s :: chain) last ↔ ∃ r next,
    owner.relation? s.name = some r ∧ g.entity? (s.tag.getD r.target) = some next ∧
    r.Admits s ∧ (chain ≠ [] → s.tag = none) ∧ g.Leads next chain last := by
  constructor
  · rintro ⟨reached, untagged, admits⟩
    obtain ⟨r, next, hr, hnext, reached⟩ := reached?_cons_eq_some.1 reached
    refine ⟨r, next, hr, hnext, ?_⟩
    cases chain with
    | nil =>
      rw [g.lastRelation?_singleton, hr] at admits
      exact ⟨by simpa using admits, by simp, reached, by simp, by simp⟩
    | cons t chain =>
      rw [lastRelation?_cons hr hnext (by simp)] at admits
      obtain ⟨tagless, untagged⟩ := List.forall_mem_cons.1 untagged
      exact ⟨fun tagged => by simp [tagless] at tagged, fun _ => tagless, reached, untagged, admits⟩
  · rintro ⟨r, next, hr, hnext, hadmits, htag, reached, untagged, admits⟩
    refine ⟨reached?_cons_eq_some.2 ⟨r, next, hr, hnext, reached⟩, ?_, ?_⟩
    · cases chain with
      | nil => simp
      | cons t chain => exact List.forall_mem_cons.2 ⟨htag (by simp), untagged⟩
    · cases chain with
      | nil =>
        rw [g.lastRelation?_singleton, hr]
        simpa using hadmits
      | cons t chain =>
        rw [lastRelation?_cons hr hnext (by simp)]
        exact admits

/-- A chain that leads somewhere admits the tag of each of its segments. -/
theorem Leads.admits_of_prefix {e : Entity} (h : g.Leads owner chain last) {done : List Segment}
    (hdone : done ++ [s] <+: chain) (he : g.reached? owner done = some e)
    (hr : e.relation? s.name = some r) : r.Admits s := by
  obtain ⟨more, rfl⟩ := hdone
  by_cases hmore : more = []
  · subst hmore
    refine h.admits s (by simp) r ?_
    rw [List.append_nil, lastRelation?_append, he]
    exact hr
  · -- Segments before the last have no tag.
    intro tagged
    have inner : s ∈ (done ++ [s] ++ more).dropLast := by
      rw [List.dropLast_append_of_ne_nil hmore]
      simp
    simp [h.untagged s inner] at tagged

/-- The front of a chain that leads somewhere leads somewhere. -/
theorem Leads.of_prefix (h : g.Leads owner chain last) {front : List Segment}
    (hfront : front <+: chain) : ∃ e, g.Leads owner front e := by
  obtain ⟨more, rfl⟩ := hfront
  have reached := h.reached
  rw [reached?_append, Option.bind_eq_some_iff] at reached
  obtain ⟨e, he, -⟩ := reached
  refine ⟨e, he, fun s hs => h.untagged s ?_, fun s hs r hr => ?_⟩
  · cases more with
    | nil => rwa [List.append_nil]
    | cons t more =>
      rw [List.dropLast_append_of_ne_nil (by simp)]
      exact List.mem_append_left _ (List.dropLast_subset front hs)
  · obtain ⟨done, rfl⟩ := List.getLast?_eq_some_iff.1 hs
    rw [Option.mem_def, lastRelation?_append, Option.bind_eq_some_iff] at hr
    obtain ⟨e', he', hr⟩ := hr
    exact h.admits_of_prefix (List.prefix_append _ more) he' hr

end Registry

/-- The walk takes segments as long as they name relations, and those that it takes lead to where it
ends. -/
structure Walk.Follows (g : Registry) (current : Entity) (polymorphic : Bool)
    (segments : List Segment) (w : Walk) : Prop where
  whole : w.chain ++ w.rest = segments
  leads : g.Leads current w.chain w.last
  stops : ∀ s ∈ w.rest.head?, w.last.relation? s.name = none
  start : w.chain = [] → w.polymorphic = polymorphic
  ends : ∀ r ∈ g.lastRelation? current w.chain, w.polymorphic = r.isPolymorphic

section

variable {g : Registry} {current next : Entity} {polymorphic : Bool} {s : Segment}
  {segments rest : List Segment} {r : Relation} {w : Walk}

/-- A walk follows what leads somewhere, if it stops there. -/
theorem Registry.Leads.follows {owner last : Entity} {chain : List Segment}
    (leads : g.Leads owner chain last) (stops : ∀ s ∈ rest.head?, last.relation? s.name = none) :
    Walk.Follows g owner false (chain ++ rest)
      ⟨chain, rest, last, (g.lastRelation? owner chain).any Relation.isPolymorphic⟩ := by
  refine ⟨rfl, leads, stops, ?_, fun r hr => ?_⟩
  · rintro rfl
    rfl
  · rw [Option.mem_def] at hr
    simp only [hr, Option.any_some]

/-- A walk follows the whole of what leads somewhere, if nothing else is left. -/
theorem Registry.Leads.follows_all {owner last : Entity} {chain : List Segment}
    (leads : g.Leads owner chain last) : Walk.Follows g owner false chain
      ⟨chain, [], last, (g.lastRelation? owner chain).any Relation.isPolymorphic⟩ := by
  have stops : ∀ s ∈ ([] : List Segment).head?, last.relation? s.name = none := by simp
  have follows := leads.follows stops
  rwa [List.append_nil] at follows

/-- If the first segment names no relation, the walk takes none. -/
theorem Walk.follows_iff_of_stop (h : ∀ s ∈ segments.head?, current.relation? s.name = none) :
    w.Follows g current polymorphic segments ↔ w = ⟨[], segments, current, polymorphic⟩ := by
  constructor
  · obtain ⟨chain, rest, last, p⟩ := w
    rintro ⟨rfl, leads, -, start, -⟩
    cases chain with
    | nil =>
      obtain rfl := Option.some.inj leads.reached
      obtain rfl := start rfl
      rfl
    | cons t more =>
      obtain ⟨r, _, hr, -⟩ := Registry.leads_cons_iff.1 leads
      simp [hr] at h
  · rintro rfl
    exact ⟨rfl, g.leads_nil current, h, fun _ => rfl, by simp [Registry.lastRelation?]⟩

/-- If the first segment names a relation, the walk takes it, and goes on from the entity there. -/
theorem Walk.follows_cons_iff (hr : current.relation? s.name = some r) :
    w.Follows g current polymorphic (s :: rest) ↔ ∃ next, ∃ v : Walk,
      g.entity? (s.tag.getD r.target) = some next ∧ r.Admits s ∧
      (v.chain ≠ [] → s.tag = none) ∧ v.Follows g next r.isPolymorphic rest ∧
      w = { v with chain := s :: v.chain } := by
  constructor
  · obtain ⟨chain, rest', last, p⟩ := w
    rintro ⟨whole, leads, stops, -, ends⟩
    dsimp only at whole leads stops ends
    cases chain with
    | nil =>
      obtain rfl : rest' = s :: rest := whole
      obtain rfl := Option.some.inj leads.reached
      simp [hr] at stops
    | cons t more =>
      obtain ⟨rfl, rfl⟩ := List.cons.inj whole
      obtain ⟨r', next, hr', hnext, hadmits, htag, leads⟩ := Registry.leads_cons_iff.1 leads
      obtain rfl := Option.some.inj (hr.symm.trans hr')
      refine ⟨next, ⟨more, rest', last, p⟩, hnext, hadmits, htag, ⟨rfl, leads, stops, ?_, ?_⟩, rfl⟩
      · rintro rfl
        exact ends r hr
      · intro q hq
        have hne : more ≠ [] := by
          rintro rfl
          simp [Registry.lastRelation?] at hq
        exact ends q (Registry.lastRelation?_cons hr hnext hne ▸ hq)
  · rintro ⟨next, ⟨chain, rest', last, p⟩, hnext, hadmits, htag, ⟨rfl, leads, stops, start, ends⟩,
      rfl⟩
    refine ⟨rfl, Registry.leads_cons_iff.2 ⟨r, next, hr, hnext, hadmits, htag, leads⟩, stops,
      by simp, fun q hq => ?_⟩
    cases chain with
    | nil =>
      obtain rfl := Option.some.inj (hr.symm.trans hq)
      exact start rfl
    | cons t more =>
      have shorter : g.lastRelation? current (s :: t :: more) = g.lastRelation? next (t :: more) :=
        Registry.lastRelation?_cons hr hnext (by simp)
      exact ends q (shorter ▸ hq)

end

section

variable {g : Registry} {key : String} {current : Entity} {polymorphic : Bool}
  {previous : Option Segment} {segments : List Segment} {w : Walk}

/-- A walk succeeds just in case the segments that it takes lead somewhere, and it takes none if the
segment before has a tag. -/
theorem walk_eq_ok_iff : walk g key current polymorphic previous segments = .ok w ↔
    w.Follows g current polymorphic segments ∧
      (w.chain ≠ [] → ∀ s ∈ previous, s.tag = none) := by
  induction segments generalizing current polymorphic previous w with
  | nil =>
    rw [walk, Walk.follows_iff_of_stop (by simp), Except.ok.injEq, eq_comm]
    refine (and_iff_left_of_imp ?_).symm
    rintro rfl hne
    exact absurd rfl hne
  | cons s rest ih =>
    rw [walk]
    cases hr : current.relation? s.name with
    | none =>
      rw [Walk.follows_iff_of_stop (by simpa using hr), Except.ok.injEq, eq_comm]
      refine (and_iff_left_of_imp ?_).symm
      rintro rfl hne
      exact absurd rfl hne
    | some r =>
      rw [Walk.follows_cons_iff hr]
      dsimp only
      constructor
      · intro h
        split at h
        · cases h
        rename_i hprevious
        split_ifs at h with htag
        obtain ⟨next, hnext, h⟩ := bind_eq_ok.1 h
        obtain ⟨v, hv, h⟩ := bind_eq_ok.1 h
        obtain rfl := pure_eq_ok.1 h
        obtain ⟨follows, hs⟩ := ih.1 hv
        have target := Registry.targetOf_eq_ok.1 (ofSchema_eq_ok.1 hnext)
        have admits : r.Admits s := fun tagged => by simpa [tagged] using htag
        refine ⟨⟨next, v, target, admits, fun hne => hs hne s rfl, follows, rfl⟩, fun _ t ht => ?_⟩
        obtain ⟨name, _ | tag⟩ := t
        · rfl
        · exact absurd ht (hprevious name tag)
      · rintro ⟨⟨next, v, hnext, hadmits, htag, follows, rfl⟩, hprevious⟩
        have walked : walk g key next r.isPolymorphic (some s) rest = .ok v :=
          ih.2 ⟨follows, fun hne t ht => Option.some.inj ht ▸ htag hne⟩
        have target : CompileError.ofSchema (g.targetOf current s.name (s.tag.getD r.target)) =
            .ok next := ofSchema_eq_ok.2 (Registry.targetOf_eq_ok.2 hnext)
        have admitted : (s.tag.isSome && !r.isPolymorphic) = false := by
          cases htag : s.tag.isSome with
          | false => rfl
          | true => simp [hadmits htag]
        split
        · rename_i name tag
          cases hprevious (by simp) ⟨name, some tag⟩ rfl
        · rw [admitted, target]
          exact bind_eq_ok.2 ⟨next, rfl, bind_eq_ok.2 ⟨v, walked, rfl⟩⟩

/-- What leads somewhere can be walked. -/
theorem Registry.Leads.exists_walk {owner last : Entity} {chain : List Segment}
    (h : g.Leads owner chain last) (key : String) :
    ∃ w, walk g key owner false none chain = .ok w ∧ w.chain = chain ∧ w.last = last :=
  ⟨_, walk_eq_ok_iff.2 ⟨h.follows_all, by simp⟩, rfl, rfl⟩

/-- A walk follows segments of the key, and ends where they lead. -/
theorem walk_reached (h : walk g key current polymorphic previous segments = .ok w) :
    g.reached? current w.chain = some w.last ∧ w.chain <+: segments := by
  obtain ⟨follows, -⟩ := walk_eq_ok_iff.1 h
  exact ⟨follows.leads.reached, w.rest, follows.whole⟩

/-- A walk cuts segments in two. -/
theorem walk_append (h : walk g key current polymorphic previous segments = .ok w) :
    w.chain ++ w.rest = segments :=
  (walk_eq_ok_iff.1 h).1.whole

end

end FilterSql
