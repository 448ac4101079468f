import FilterSql.Compiler
import FilterSql.Proofs.Plan.Entities
import FilterSql.Proofs.Where.Refusals

/-!
# What may fail after planning

A plan names registered entities only, so nothing that is made of it looks up an entity in vain: the
clauses of its joins can be made, conditions are refused for what they say themselves, and an order
only if it goes by a relation instead of a property (`Session.refused_planned`).
-/

namespace FilterSql

open Sql

namespace Session

variable {g : Registry} {root : Entity} {s : Session}

/-- The clauses of joins between registered entities can be made. -/
theorem Grounded.exists_joinClauses (h : s.Grounded g) :
    ∃ joins, g.joinClauses s = .ok joins := by
  refine exists_mapM fun j hj => ?_
  obtain ⟨parent, hparent⟩ := h.parent j hj
  obtain ⟨target, htarget⟩ := h.target j hj
  unfold Registry.joinClause
  rw [ofSchema_eq_ok.2 (Registry.entity_eq_ok.2 hparent),
    ofSchema_eq_ok.2 (Registry.entity_eq_ok.2 htarget)]
  exact ⟨_, rfl⟩

/-- Every key of a condition can be looked up. -/
theorem Grounded.ready (h : s.Grounded g) (root : Entity) :
    View.Ready ⟨g, root, s, .standard⟩ where
  operators := rfl
  resolves key := by
    unfold View.resolveKey
    dsimp only
    split_ifs
    · exact ⟨_, rfl⟩
    · exact ⟨_, rfl⟩
    · split
      · rename_i stem label name property hp
        obtain ⟨entity, hentity⟩ := h.endpoint .condition key _ hp
        rw [ofSchema_eq_ok.2 (Registry.entity_eq_ok.2 hentity)]
        exact ⟨_, rfl⟩
      · exact ⟨none, rfl⟩

/-- The order has an entry whose key arrives at a relation. -/
inductive Unordered (s : Session) (order : List String) : CompileError → Prop
  | missing {entry key : String} {directions : List String} {p : Endpoint} (he : entry ∈ order)
    (hkey : orderWords entry = key :: directions) (hp : s.endpoint? .order key = some p)
    (hrelation : p.property = none) : Unordered s order (.missingOrderProperty key)

theorem Grounded.refused_orderItems (h : s.Grounded g) (root : Entity) (order : List String) :
    FailsOnly (Unordered s order) (orderItems g root s order) := by
  -- The entries that are left are among those of the order.
  have items (entries : List String) (hentries : entries ⊆ order) :
      FailsOnly (Unordered s order) (orderItems g root s entries) := by
    induction entries with
    | nil => exact .ok []
    | cons entry rest ih =>
      obtain ⟨hentry, hrest⟩ := List.cons_subset.1 hentries
      unfold orderItems
      cases hwords : orderWords entry with
      | nil => exact ih hrest
      | cons key directions =>
        have expr : FailsOnly (Unordered s order) (orderExpr g root s key) := by
          unfold orderExpr
          split
          · rename_i stem label name property hp
            obtain ⟨entity, hentity⟩ := h.endpoint .order key _ hp
            rw [ofSchema_eq_ok.2 (Registry.entity_eq_ok.2 hentity)]
            exact .ok _
          · rename_i hp
            exact .error (.missing hentry hwords hp rfl)
          · exact .ok _
        exact expr.bind fun _ _ => (ih hrest).bind fun _ _ => .ok _
  exact items order (List.Subset.refl order)

/-- After a plan that succeeds no entity is looked up in vain.  The clauses of the joins can be
made; conditions fail only for what the tree says; and an order fails only by an entry that goes by
a relation. -/
theorem refused_planned {clause : Option Members} {order : List String}
    (hroot : g.entity? root.name = some root)
    (h : plan g root clause order {} = (s, .ok ())) :
    s.Grounded g ∧ (∃ joins, g.joinClauses s = .ok joins) ∧
      (∀ e, View.compile ⟨g, root, s, .standard⟩ clause = .error e →
        Refused (.obj (clause.getD [])) e) ∧
      ∀ e, orderItems g root s order = .error e → Unordered s order e := by
  have grounded := (Reached.of_plan h).grounded hroot
  exact ⟨grounded, grounded.exists_joinClauses, View.refused_compile (grounded.ready root) clause,
    grounded.refused_orderItems root order⟩

/-- A range of titles of films that has no bounds. -/
def unboundedClause : Members := [("films.title", .obj [("between", .str "a")])]

theorem refused_planned_studios : ∃ s joins, studios.entity? studio.name = some studio ∧
    plan studios studio (some unboundedClause) ["films desc"] {} = (s, .ok ()) ∧
    s.Grounded studios ∧ studios.joinClauses s = .ok joins ∧
    (∃ e, View.compile ⟨studios, studio, s, .standard⟩ (some unboundedClause) = .error e ∧
      e = .invalidOperand "between" "expected an array of two bounds" ∧
      Refused (.obj unboundedClause) e) ∧
    ∃ e, orderItems studios studio s ["films desc"] = .error e ∧
      e = .missingOrderProperty "films" ∧ Unordered s ["films desc"] e := by
  have registered : studios.entity? studio.name = some studio := by decide +kernel
  have succeeds : (plan studios studio (some unboundedClause) ["films desc"] {}).2 = .ok () := by
    decide +kernel
  have condition : (View.compile ⟨studios, studio,
      (plan studios studio (some unboundedClause) ["films desc"] {}).1, .standard⟩
        (some unboundedClause)).map (fun _ => ()) =
      .error (.invalidOperand "between" "expected an array of two bounds") := by decide +kernel
  have order : (orderItems studios studio
      (plan studios studio (some unboundedClause) ["films desc"] {}).1 ["films desc"]).map
        (fun _ => ()) = .error (.missingOrderProperty "films") := by decide +kernel
  generalize hplan : plan studios studio (some unboundedClause) ["films desc"] {} = planned
    at succeeds condition order
  obtain ⟨s, r⟩ := planned
  obtain rfl : r = .ok () := succeeds
  replace condition := map_eq_error.1 condition
  replace order := map_eq_error.1 order
  obtain ⟨grounded, ⟨joins, hjoins⟩, hcondition, horder⟩ := refused_planned registered hplan
  exact ⟨s, joins, registered, rfl, grounded, hjoins, ⟨_, condition, rfl, hcondition _ condition⟩,
    _, order, rfl, horder _ order⟩

end Session

end FilterSql
