import FilterSql.Proofs.Plan.Steps

/-!
# Labels of planned joins

Each planned join starts from the root or from a join before it, and each key arrives at the root or
at a planned join.  `Session.Linked` says so; every step of planning preserves it, hence it holds of
all sessions that planning comes to.
-/

namespace FilterSql.Session

variable {g : Registry} {root : Entity} {s s' : Session}

/-- The labels of the tables that are at hand: the root, then the joins in their order. -/
def labels (root : Entity) (s : Session) : List String := root.tableName :: s.joins.map (·.label)

/-- No label hangs in the air. -/
structure Linked (root : Entity) (s : Session) : Prop where
  /-- A join starts from the root or from a join before it. -/
  parent : ∀ i j, s.joins[i]? = some j →
    j.parentLabel ∈ root.tableName :: (s.joins.take i).map (·.label)
  endpoint : ∀ scope key p, s.endpoint? scope key = some p → p.label ∈ s.labels root

theorem labels_addJoins (s : Session) (joins : List Join) :
    (s.addJoins joins).labels root = s.labels root ++ joins.map (·.label) := by
  simp [labels, addJoins]

theorem label_mem_labels {j : Join} (h : j ∈ s.joins) : j.label ∈ s.labels root :=
  List.mem_cons_of_mem _ (List.mem_map_of_mem h)

theorem linked_fresh (root : Entity) : Linked root {} where
  parent i j h := by simp at h
  endpoint scope key p h := by
    cases scope <;> simp [endpoint?, endpoints, Catalog.find?, Catalog.empty] at h

theorem Linked.draw (h : s.Linked root) : s.draw.2.Linked root where
  parent := h.parent
  endpoint scope key p hp := h.endpoint scope key p (by cases scope <;> exact hp)

/-- A join may be added that starts from a table at hand. -/
theorem Linked.addJoin {j : Join} (h : s.Linked root) (hj : j.parentLabel ∈ s.labels root) :
    (s.addJoins [j]).Linked root where
  parent i k hk := by
    have hk : (s.joins ++ [j])[i]? = some k := hk
    show k.parentLabel ∈ root.tableName :: ((s.joins ++ [j]).take i).map (·.label)
    -- Joins that were there keep their place; the new one has all of them before it.
    rw [List.getElem?_append] at hk
    split at hk
    · rename_i hi
      have hle : i ≤ s.joins.length := by omega
      rw [List.take_append_of_le_length hle]
      exact h.parent i k hk
    · rename_i hi
      obtain ⟨-, rfl⟩ : i - s.joins.length = 0 ∧ j = k := by
        simpa [List.getElem?_singleton] using hk
      rw [List.take_append, List.take_of_length_le (by omega), List.map_append]
      exact List.mem_append_left _ hj
  endpoint scope key p hp := by
    have hp : s.endpoint? scope key = some p := by cases scope <;> exact hp
    rw [labels_addJoins]
    exact List.mem_append_left _ (h.endpoint scope key p hp)

/-- A key may arrive at a table at hand. -/
theorem Linked.setEndpoint {p : Endpoint} (h : s.Linked root) (hp : p.label ∈ s.labels root)
    (scope : Scope) (key : String) : (s.setEndpoint scope key p).Linked root where
  parent i j hj := by
    rw [joins_setEndpoint] at hj ⊢
    exact h.parent i j hj
  endpoint scope' key' p' hp' := by
    rw [labels, joins_setEndpoint]
    rw [endpoint?_setEndpoint] at hp'
    split at hp'
    · obtain rfl := Option.some.inj hp'
      exact hp
    · exact h.endpoint scope' key' p' hp'

/-- The joins of one relation start from its anchor, or from one another. -/
theorem Linked.addJoins_of_joinsAt {anchor : Anchor} {path stem : String} {segment : Segment}
    {hops : Hops} {middle : List Join} {last : Join} (h : s.Linked root)
    (ha : anchor.label ∈ s.labels root)
    (hj : g.joinsAt anchor path stem segment hops = .ok (middle, last)) :
    (s.addJoins (middle ++ [last])).Linked root := by
  obtain ⟨keys, -, rfl, hlast⟩ | ⟨table, target, half, -, rfl, hhalf, hlast⟩ :=
    Registry.joinsAt_cases hj
  · obtain ⟨-, -, rfl⟩ := Registry.joinAt_eq_ok.1 hlast
    exact h.addJoin ha
  · have linked : (s.addJoins [half]).Linked root := by
      obtain ⟨-, -, rfl⟩ := Registry.joinAt_eq_ok.1 hhalf
      exact h.addJoin ha
    have parent : last.parentLabel = half.label := by
      obtain ⟨-, -, rfl⟩ := Registry.joinAt_eq_ok.1 hlast
      rfl
    have both : s.addJoins ([half] ++ [last]) = (s.addJoins [half]).addJoins [last] := by
      simp [addJoins]
    rw [both]
    refine linked.addJoin ?_
    rw [parent, labels_addJoins]
    exact List.mem_append_right _ (List.mem_singleton.2 rfl)

theorem Linked.planHop {key : String} {depth : Nat} {segment : Segment} {hops : Hops}
    {anchor anchor' : Anchor} (h : s.Linked root ∧ anchor.label ∈ s.labels root)
    (hop : Session.planHop g root key depth segment hops anchor s = .ok anchor' s') :
    s'.Linked root ∧ anchor'.label ∈ s'.labels root := by
  obtain ⟨linked, ha⟩ := h
  obtain ⟨j, hj, rfl, rfl⟩ | ⟨stem, middle, last, -, -, hjoins, rfl, rfl⟩ := planHop_cases hop
  · exact ⟨linked, label_mem_labels (join?_eq_some hj).1⟩
  · refine ⟨linked.draw.addJoins_of_joinsAt ha hjoins, label_mem_labels ?_⟩
    simp [addJoins]

theorem Linked.planKey {scope : Scope} {key : String} (h : s.Linked root)
    (hkey : Session.planKey g root scope s key = .ok s') : s'.Linked root := by
  -- Also the table that is planned from is at hand.
  have along : s'.Linked root ∧ (Anchor.ofRoot root).label ∈ s'.labels root := by
    refine planKey_induct (I := fun t anchor => t.Linked root ∧ anchor.label ∈ t.labels root)
      Linked.planHop ?_ hkey ⟨h, List.mem_cons_self⟩
    rintro t anchor property ⟨linked, ha⟩
    exact ⟨linked.setEndpoint ha scope key, List.mem_cons_self⟩
  exact along.1

/-- In all sessions that planning comes to, joins and endpoints have their tables at hand. -/
theorem Reached.linked (h : Reached g root s) : s.Linked root := by
  induction h with
  | fresh => exact linked_fresh root
  | key _ hkey ih => exact ih.planKey hkey

end FilterSql.Session
