import FilterSql.Proofs.Path.Walk

/-!
# Relations in both directions

A relation that declares no keys takes them from identifiers and from names: from the name of the
relation if it points at one row, and from that of the owner if rows point back at it.  So relations
that lead from two entities to each other are joined by the same columns in either direction, if the
one that points at one row is called after the other entity (`Registry.inverses_mirrored`).  Either
direction is missing a key just in case the other is.
-/

namespace FilterSql

/-- The join in the other direction, back to the entity from which this one starts. -/
def JoinKeys.reversed (keys : JoinKeys) (start : String) : JoinKeys :=
  { keys with entity := start, keyFrom := keys.keyTo, keyTo := keys.keyFrom }

namespace Registry

variable {g : Registry} {owner target table : Entity} {relation name : String} {side : KeySide}
  {p : Option Polymorphic}

/-! ## Keys by default -/

theorem keyOrId_of_nil {e : Entity} (h : e.idNames = []) :
    keyOrId owner relation side none e = .error (.missingKey owner.name relation side) := by
  unfold keyOrId
  rw [h]

theorem keyOrId_of_cons {e : Entity} {id : String} {rest : List String}
    (h : e.idNames = id :: rest) : keyOrId owner relation side none e = .ok id := by
  unfold keyOrId
  rw [h]

/-- Without a tag no row has to name its target. -/
theorem discriminatorOf_none (p : Option Polymorphic) (usual : String) :
    discriminatorOf p none usual = none := by
  cases p <;> rfl

/-- The owner has the key of the target, under the name of the relation. -/
theorem resolve_belongsTo (htarget : g.entity? target.name = some target)
    (hr : owner.relation? name = some (.direct ⟨.belongsTo, target.name, none, none, p⟩)) :
    g.resolve owner name none = (keyOrId owner name .keyTo none target).map fun id =>
      .direct ⟨target.name, s!"{name}Id", id, none⟩ := by
  have found : g.targetOf owner name target.name = .ok target := targetOf_eq_ok.2 htarget
  simp only [resolve, hr, resolveDirect, reduceCtorEq, if_false, Option.getD_none, found,
    discriminatorOf_none, bind, Except.bind, if_true]
  cases keyOrId owner name .keyTo none target <;> rfl

/-- The target has the key of the owner, under the name of the owner. -/
theorem resolve_has {kind : DirectKind} (hkind : kind = .hasMany ∨ kind = .hasOne)
    (htarget : g.entity? target.name = some target)
    (hr : owner.relation? name = some (.direct ⟨kind, target.name, none, none, p⟩)) :
    g.resolve owner name none = (keyOrId owner name .keyFrom none owner).map fun id =>
      .direct ⟨target.name, id, s!"{owner.camelName}Id", none⟩ := by
  have found : g.targetOf owner name target.name = .ok target := targetOf_eq_ok.2 htarget
  obtain ⟨joinable, many⟩ : kind ≠ .referencesMany ∧ kind ≠ .belongsTo := by
    obtain rfl | rfl := hkind <;> simp
  simp only [resolve, hr, resolveDirect, joinable, many, if_false, Option.getD_none, found,
    discriminatorOf_none, bind, Except.bind]
  cases keyOrId owner name .keyFrom none owner <;> rfl

/-- The table in between has the keys of both, each under the name of its entity. -/
theorem resolve_through (htarget : g.entity? target.name = some target)
    (htable : g.entity? table.name = some table)
    (hr : owner.relation? name =
      some (.through ⟨target.name, none, none, ⟨table.name, none, none, p⟩⟩)) :
    g.resolve owner name none = (do
      let id ← keyOrId owner name .keyFrom none owner
      let id' ← keyOrId owner name .keyTo none target
      return .through ⟨table.name, id, s!"{owner.camelName}Id", none⟩
        ⟨target.name, s!"{target.camelName}Id", id', none⟩) := by
  have found : g.targetOf owner name target.name = .ok target := targetOf_eq_ok.2 htarget
  have between : g.targetOf owner name table.name = .ok table := targetOf_eq_ok.2 htable
  simp only [resolve, hr, resolveThrough, Option.getD_none, found, between, discriminatorOf_none,
    bind, Except.bind]
  cases keyOrId owner name .keyFrom none owner with
  | error e => rfl
  | ok id => cases keyOrId owner name .keyTo none target <;> rfl

/-- A relation by way of a table in between needs the identifiers of both its ends. -/
theorem resolve_through_missing (htarget : g.entity? target.name = some target)
    (htable : g.entity? table.name = some table)
    (hr : owner.relation? name =
      some (.through ⟨target.name, none, none, ⟨table.name, none, none, p⟩⟩))
    (h : owner.idNames = [] ∨ target.idNames = []) :
    ∃ side, g.resolve owner name none = .error (.missingKey owner.name name side) := by
  rw [resolve_through htarget htable hr]
  cases hids : owner.idNames with
  | nil =>
    rw [keyOrId_of_nil hids]
    exact ⟨.keyFrom, rfl⟩
  | cons id rest =>
    rw [keyOrId_of_cons hids, keyOrId_of_nil (h.resolve_left (by simp [hids]))]
    exact ⟨.keyTo, rfl⟩

/-! ## Both directions -/

/-- Relations without declared keys that lead from two entities to each other lack a key both, or
are joined by the same columns.  One that points at one row has to be called after the other entity;
of relations by way of a table in between, each is joined like the other from its end. -/
theorem inverses_mirrored {g : Registry} {a b t : Entity} (ha : g.entity? a.name = some a)
    (hb : g.entity? b.name = some b) (ht : g.entity? t.name = some t) :
    (∀ kind name p q, kind = .hasMany ∨ kind = .hasOne →
      a.relation? name = some (.direct ⟨kind, b.name, none, none, p⟩) →
      b.relation? a.camelName = some (.direct ⟨.belongsTo, a.name, none, none, q⟩) →
      if a.idNames = [] then
        g.resolve a name none = .error (.missingKey a.name name .keyFrom) ∧
          g.resolve b a.camelName none = .error (.missingKey b.name a.camelName .keyTo)
      else ∃ keys, keys.entity = b.name ∧ g.resolve a name none = .ok (.direct keys) ∧
        g.resolve b a.camelName none = .ok (.direct (keys.reversed a.name))) ∧
    ∀ name back p q,
      a.relation? name = some (.through ⟨b.name, none, none, ⟨t.name, none, none, p⟩⟩) →
      b.relation? back = some (.through ⟨a.name, none, none, ⟨t.name, none, none, q⟩⟩) →
      if a.idNames = [] ∨ b.idNames = [] then
        (∃ side, g.resolve a name none = .error (.missingKey a.name name side)) ∧
          ∃ side, g.resolve b back none = .error (.missingKey b.name back side)
      else ∃ table target, table.entity = t.name ∧ target.entity = b.name ∧
        g.resolve a name none = .ok (.through table target) ∧
        g.resolve b back none = .ok (.through (target.reversed t.name) (table.reversed a.name)) := by
  refine ⟨fun kind name p q hkind there back => ?_, fun name back p q there hback => ?_⟩
  · rw [resolve_has hkind hb there, resolve_belongsTo ha back]
    cases hids : a.idNames with
    | nil =>
      rw [if_pos rfl, keyOrId_of_nil hids, keyOrId_of_nil hids]
      exact ⟨rfl, rfl⟩
    | cons id rest =>
      rw [if_neg (by simp), keyOrId_of_cons hids, keyOrId_of_cons hids]
      exact ⟨_, rfl, rfl, rfl⟩
  · split_ifs with hids
    · exact ⟨resolve_through_missing hb ht there hids,
        resolve_through_missing ha ht hback hids.symm⟩
    · obtain ⟨ida, resta, hida⟩ := List.exists_cons_of_ne_nil (not_or.1 hids).1
      obtain ⟨idb, restb, hidb⟩ := List.exists_cons_of_ne_nil (not_or.1 hids).2
      rw [resolve_through hb ht there, resolve_through ha ht hback, keyOrId_of_cons hida,
        keyOrId_of_cons hidb, keyOrId_of_cons hidb, keyOrId_of_cons hida]
      exact ⟨_, _, rfl, rfl, rfl, rfl⟩

/-- A province, whose small first letter is two characters, with its towns and roads. -/
def province : Entity :=
  { name := "İl", properties := [{ name := "id", isId := true }],
    relations := .ofList [
      ("towns", .direct ⟨.hasMany, "Town", none, none, none⟩),
      ("roads", .through ⟨"Road", none, none, ⟨"Passage", none, none, none⟩⟩)] }

/-- A town, whose province is called after it. -/
def town : Entity :=
  { name := "Town", properties := [{ name := "id", isId := true }],
    relations := .ofList [("i\u0307l", .direct ⟨.belongsTo, "İl", none, none, none⟩)] }

/-- A road, which has a row of passages for each province. -/
def road : Entity :=
  { name := "Road", properties := [{ name := "number", isId := true }],
    relations := .ofList [
      ("provinces", .through ⟨"İl", none, none, ⟨"Passage", none, none, none⟩⟩)] }

/-- The entity of rows in between. -/
def passage : Entity := { name := "Passage" }

/-- Provinces, towns and roads. -/
def provinces : Registry := ⟨.ofList [province, town, road, passage]⟩

theorem inverses_mirrored_provinces :
    provinces.entity? "İl" = some province ∧ provinces.entity? "Town" = some town ∧
    provinces.entity? "Road" = some road ∧ provinces.entity? "Passage" = some passage ∧
    (∃ keys, keys.entity = "Town" ∧ provinces.resolve province "towns" none = .ok (.direct keys) ∧
      provinces.resolve town "i\u0307l" none = .ok (.direct (keys.reversed "İl"))) ∧
    ∃ table target, table.entity = "Passage" ∧ target.entity = "Road" ∧
      provinces.resolve province "roads" none = .ok (.through table target) ∧
      provinces.resolve road "provinces" none =
        .ok (.through (target.reversed "Passage") (table.reversed "İl")) := by
  have first : provinces.entity? province.name = some province := by decide +kernel
  have second : provinces.entity? town.name = some town := by decide +kernel
  have third : provinces.entity? road.name = some road := by decide +kernel
  have between : provinces.entity? passage.name = some passage := by decide +kernel
  have called : province.camelName = "i\u0307l" := by decide +kernel
  refine ⟨first, second, third, between, ?_, ?_⟩
  · have back : town.relation? province.camelName =
        some (.direct ⟨.belongsTo, province.name, none, none, none⟩) := by decide +kernel
    have mirrored := (inverses_mirrored first second between).1 .hasMany "towns" none none (.inl rfl)
      (by decide +kernel) back
    rwa [if_neg (by decide), called] at mirrored
  · have mirrored := (inverses_mirrored first third between).2 "roads" "provinces" none none
      (by decide +kernel) (by decide +kernel)
    rwa [if_neg (by decide)] at mirrored

end Registry

end FilterSql
