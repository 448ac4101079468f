import FilterSql.Proofs.Plan.Arrivals
import FilterSql.Proofs.Plan.Coverage

/-!
# Entities of planned joins

Each planned join leads on from the entity of the root or from one that a planned join leads to, and
each key arrives at one of these (`Session.Reached.parentEntity_mem`,
`Session.Reached.endpoint_mem`).  All of them are registered (`Session.Reached.grounded`), so
whatever is made of a plan can look them up.
-/

namespace FilterSql

namespace Session

variable {g : Registry} {root : Entity} {scope : Scope} {key : String} {s s' : Session}

/-- The names of the entities that are at hand: the root, then those that joins lead to. -/
def entities (root : Entity) (s : Session) : List String := root.name :: s.joins.map (·.target)

theorem target_mem_entities {j : Join} (h : j ∈ s.joins) : j.target ∈ s.entities root :=
  List.mem_cons_of_mem _ (List.mem_map_of_mem h)

/-- The joins of one relation lead on from its anchor, or from one another. -/
theorem parentEntity_joinsAt {anchor : Anchor} {path stem : String} {segment : Segment}
    {hops : Hops} {middle : List Join} {last : Join}
    (h : g.joinsAt anchor path stem segment hops = .ok (middle, last)) :
    ∀ j ∈ middle ++ [last], j.parentEntity = anchor.entity ∨
      ∃ i ∈ middle ++ [last], j.parentEntity = i.target := by
  obtain ⟨keys, -, rfl, hlast⟩ | ⟨table, target, half, -, rfl, hhalf, hlast⟩ :=
    Registry.joinsAt_cases h
  · obtain ⟨-, -, rfl⟩ := Registry.joinAt_eq_ok.1 hlast
    simp
  · obtain ⟨-, -, rfl⟩ := Registry.joinAt_eq_ok.1 hlast
    obtain ⟨-, -, rfl⟩ := Registry.joinAt_eq_ok.1 hhalf
    simp [Anchor.ofJoin]

/-- The joins lead on from entities at hand, and so does the table that is planned from. -/
def Rooted (root : Entity) (s : Session) (anchor : Anchor) : Prop :=
  (∀ j ∈ s.joins, j.parentEntity ∈ s.entities root) ∧ anchor.entity ∈ s.entities root

theorem Rooted.planHop {depth : Nat} {segment : Segment} {hops : Hops} {anchor anchor' : Anchor}
    (h : s.Rooted root anchor)
    (hop : Session.planHop g root key depth segment hops anchor s = .ok anchor' s') :
    s'.Rooted root anchor' := by
  obtain ⟨hparents, hanchor⟩ := h
  obtain ⟨j, hj, rfl, rfl⟩ | ⟨stem, middle, last, -, -, hjoins, rfl, rfl⟩ := planHop_cases hop
  · exact ⟨hparents, target_mem_entities (join?_eq_some hj).1⟩
  -- The entities that were at hand stay so, and those of the new joins come to them.
  have joins : (s.draw.2.addJoins (middle ++ [last])).joins = s.joins ++ (middle ++ [last]) := rfl
  have old {name : String} (hname : name ∈ s.entities root) :
      name ∈ (s.draw.2.addJoins (middle ++ [last])).entities root := by
    rw [entities, joins, List.map_append]
    exact List.mem_append_left _ hname
  have new {i : Join} (hi : i ∈ middle ++ [last]) :
      i.target ∈ (s.draw.2.addJoins (middle ++ [last])).entities root :=
    target_mem_entities (joins ▸ List.mem_append_right _ hi)
  refine ⟨fun j hj => ?_, new (by simp)⟩
  obtain hj | hj := List.mem_append.1 (joins ▸ hj)
  · exact old (hparents j hj)
  obtain hparent | ⟨i, hi, hparent⟩ := parentEntity_joinsAt hjoins j hj
  · exact hparent ▸ old hanchor
  · exact hparent ▸ new hi

theorem Rooted.planKey (h : s.Rooted root (.ofRoot root))
    (hkey : Session.planKey g root scope s key = .ok s') : s'.Rooted root (.ofRoot root) := by
  refine planKey_induct (I := Rooted root) Rooted.planHop ?_ hkey h
  intro t anchor property ht
  exact ⟨by simpa [entities] using ht.1, List.mem_cons_self⟩

/-- In all sessions that planning comes to, joins lead on from entities at hand. -/
theorem Reached.parentEntity_mem (h : Reached g root s) :
    ∀ j ∈ s.joins, j.parentEntity ∈ s.entities root := by
  have rooted : s.Rooted root (.ofRoot root) := by
    induction h with
    | fresh => exact ⟨by simp, List.mem_cons_self⟩
    | key _ hkey ih => exact ih.planKey hkey
  exact rooted.1

/-- In all sessions that planning comes to, keys arrive at entities at hand. -/
theorem Reached.endpoint_mem (h : Reached g root s) {p : Endpoint}
    (hp : s.endpoint? scope key = some p) : p.entity ∈ s.entities root := by
  obtain ⟨x, c, j, -, -, -, hj, rfl⟩ := h.ends hp
  exact target_mem_entities (join?_eq_some hj).1

theorem Reached.registered (hroot : g.entity? root.name = some root) (h : Reached g root s) :
    ∀ name ∈ s.entities root, ∃ e, g.entity? name = some e := by
  have targets : s.Registered g (.ofRoot root) := by
    induction h with
    | fresh => exact ⟨by simp, root, hroot⟩
    | key _ hkey ih => exact ih.planKey hroot hkey
  intro name hname
  obtain rfl | hname := List.mem_cons.1 hname
  · exact ⟨root, hroot⟩
  · obtain ⟨j, hj, rfl⟩ := List.mem_map.1 hname
    exact targets.1 j hj

/-- Every entity that the session names is registered. -/
structure Grounded (g : Registry) (s : Session) : Prop where
  parent : ∀ j ∈ s.joins, ∃ e, g.entity? j.parentEntity = some e
  target : ∀ j ∈ s.joins, ∃ e, g.entity? j.target = some e
  endpoint : ∀ scope key p, s.endpoint? scope key = some p → ∃ e, g.entity? p.entity = some e

/-- All sessions that planning comes to are grounded. -/
theorem Reached.grounded (hroot : g.entity? root.name = some root) (h : Reached g root s) :
    s.Grounded g where
  parent j hj := h.registered hroot _ (h.parentEntity_mem j hj)
  target _ hj := h.registered hroot _ (target_mem_entities hj)
  endpoint _ _ _ hp := h.registered hroot _ (h.endpoint_mem hp)

end Session

end FilterSql
