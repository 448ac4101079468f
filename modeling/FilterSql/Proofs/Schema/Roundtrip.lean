import FilterSql.Proofs.Json.Records
import FilterSql.Schema.Document

/-!
# Schemas that are written and read back

Each part of a schema is written as a record of fields, of which some may be absent, and is read
back as it was.  The documents have no numbers and are nested seven deep at most, so the text of a
schema is read back too: a registry is what its own document says (`Registry.ofText_pretty`).
-/

namespace FilterSql

open FilterSql.Json FilterSql.Tree

/-! ## Parts of entities -/

theorem textMember_eq (name : String) (text : Option String) :
    textMember name text = present [(name, text.map .str)] := by
  cases text <;> rfl

theorem PropertyType.ofName?_name (t : PropertyType) : ofName? t.name = some t := by
  cases t <;> rfl

namespace Property

/-- The fields of the document of a property. -/
def fields (p : Property) : List (String × Option Json) :=
  [("name", some (.str p.name)), ("column", p.storage.map .str), ("type", some (.str p.type.name)),
    ("id", if p.isId then some (.bool true) else none)]

theorem toJson_eq (p : Property) : p.toJson = .obj (present p.fields) := by
  obtain ⟨name, storage, type, isId⟩ := p
  cases storage <;> cases isId <;> rfl

theorem numberFree_toJson (n : Nat) (p : Property) : NumberFree (n + 1) p.toJson := by
  rw [toJson_eq]
  refine numberFree_present ?_
  cases isId : p.isId <;> simp [fields, isId]

theorem ofTree?_toJson (n : Nat) (p : Property) :
    ofTree? (some (n + 1)) (ofJson p.toJson) = some p := by
  have read : fields? ["name", "column", "type", "id"] (ofJson p.toJson) =
      some (p.fields.map fun f => f.2.map ofJson) := by
    rw [toJson_eq]
    exact fields?_present rfl (by decide)
  have type : withDefault? .any (fun t => (choice? (some n) t).bind PropertyType.ofName?)
      (some (ofJson (.str p.type.name))) = some p.type := PropertyType.ofName?_name p.type
  have isId : withDefault? false asBool?
      ((if p.isId then some (Json.bool true) else none).map ofJson) = some p.isId := by
    cases p.isId <;> rfl
  rw [ofTree?, read]
  simp only [fields, List.map_cons, List.map_nil, Option.map_some, Budget.enter,
    Option.bind_eq_bind, Option.bind_some, optional?_text, type, isId]
  rfl

end Property

namespace Settings

/-- The fields of the document of settings. -/
def fields (s : Settings) : List (String × Option Json) :=
  [("hiddenRelations", some (.arr (s.hiddenRelations.map .str))),
    ("defaultIdSort", some s.idSort.toJson)]

theorem toJson_eq (s : Settings) : s.toJson = .obj (present s.fields) := rfl

theorem numberFree_toJson (n : Nat) (s : Settings) : NumberFree (n + 2) s.toJson := by
  have hidden : NumberFree (n + 1) (.arr (s.hiddenRelations.map .str)) :=
    numberFree_elements fun _ _ => .str _
  have idSort : NumberFree (n + 1) s.idSort.toJson := by
    cases s.idSort <;> simp [IdSort.toJson]
  rw [toJson_eq]
  exact numberFree_present (by simp [fields, hidden, idSort])

theorem ofTree?_toJson (n : Nat) (s : Settings) :
    ofTree? (some (n + 2)) (ofJson s.toJson) = some s := by
  have read : fields? ["hiddenRelations", "defaultIdSort"] (ofJson s.toJson) =
      some [some (ofJson (.arr (s.hiddenRelations.map .str))), some (ofJson s.idSort.toJson)] := by
    rw [toJson_eq]
    exact fields?_present rfl (by decide)
  have hidden : withDefault? [] (asList? (some (n + 1)) fun _ t => t.asText?)
      (some (ofJson (.arr (s.hiddenRelations.map .str)))) = some s.hiddenRelations :=
    asList?_ofJson fun _ _ => rfl
  have idSort : withDefault? .always (IdSort.ofTree? (some (n + 1)))
      (some (ofJson s.idSort.toJson)) = some s.idSort := by
    cases s.idSort <;> rfl
  rw [ofTree?, read]
  simp only [Budget.enter, Option.bind_eq_bind, Option.bind_some, hidden, idSort]
  rfl

end Settings

namespace Polymorphic

/-- The document of what is declared of a polymorphic relation. -/
def toJson (p : Polymorphic) : Json := .obj (present [("discriminator", p.discriminator.map .str)])

theorem members_eq (p : Option Polymorphic) :
    members p = present [("polymorphic", p.map toJson)] := by
  cases p with
  | none => rfl
  | some p => rw [members, textMember_eq]; rfl

theorem numberFree_toJson (n : Nat) (p : Polymorphic) : NumberFree (n + 1) p.toJson :=
  numberFree_present (by simp)

theorem ofTree?_toJson (p : Polymorphic) : ofTree? (ofJson p.toJson) = some (some p) := by
  have read : fields? ["discriminator"] (ofJson p.toJson) =
      some [(p.discriminator.map Json.str).map ofJson] := fields?_present rfl (by decide)
  show (fields? ["discriminator"] (ofJson p.toJson)).bind _ = _
  rw [read, Option.bind_some]
  simp only [optional?_text, Option.bind_eq_bind, Option.bind_some]
  rfl

theorem withDefault?_toJson (p : Option Polymorphic) :
    withDefault? none ofTree? ((p.map toJson).map ofJson) = some p := by
  cases p with
  | none => rfl
  | some p => exact ofTree?_toJson p

end Polymorphic

/-! ## Relations -/

namespace DirectRelation

/-- The fields of the document of a relation of a direct kind, after its kind. -/
def fields (r : DirectRelation) : List (String × Option Json) :=
  [("target", some (.str r.target)), ("keyFrom", r.keyFrom.map .str), ("keyTo", r.keyTo.map .str),
    ("polymorphic", r.polymorphic.map Polymorphic.toJson)]

theorem ofTree?_present (r : DirectRelation) :
    ofTree? r.kind (ofJson (.obj (present r.fields))) = some r := by
  have read : fields? ["target", "keyFrom", "keyTo", "polymorphic"]
      (ofJson (.obj (present r.fields))) = some (r.fields.map fun f => f.2.map ofJson) :=
    fields?_present rfl (by decide)
  rw [ofTree?, read]
  simp only [fields, List.map_cons, List.map_nil, Option.map_some, Option.bind_eq_bind,
    Option.bind_some, optional?_text, Polymorphic.withDefault?_toJson]
  rfl

end DirectRelation

namespace Through

/-- The fields of the document of an entity of pairs. -/
def fields (t : Through) : List (String × Option Json) :=
  [("entity", some (.str t.entity)), ("keyFrom", t.keyFrom.map .str), ("keyTo", t.keyTo.map .str),
    ("polymorphic", t.polymorphic.map Polymorphic.toJson)]

/-- The document of an entity of pairs. -/
def toJson (t : Through) : Json := .obj (present t.fields)

theorem ofTree?_toJson (t : Through) : ofTree? (ofJson t.toJson) = some t := by
  have read : fields? ["entity", "keyFrom", "keyTo", "polymorphic"] (ofJson t.toJson) =
      some (t.fields.map fun f => f.2.map ofJson) := fields?_present rfl (by decide)
  rw [ofTree?, read]
  simp only [fields, List.map_cons, List.map_nil, Option.map_some, Option.bind_eq_bind,
    Option.bind_some, optional?_text, Polymorphic.withDefault?_toJson]
  rfl

end Through

namespace ThroughRelation

/-- The fields of the document of a relation by way of an entity of pairs, after its kind. -/
def fields (r : ThroughRelation) : List (String × Option Json) :=
  [("target", some (.str r.target)), ("keyFrom", r.keyFrom.map .str), ("keyTo", r.keyTo.map .str),
    ("through", some r.through.toJson)]

theorem ofTree?_present (r : ThroughRelation) :
    ofTree? (ofJson (.obj (present r.fields))) = some r := by
  have read : fields? ["target", "keyFrom", "keyTo", "through"]
      (ofJson (.obj (present r.fields))) = some (r.fields.map fun f => f.2.map ofJson) :=
    fields?_present rfl (by decide)
  rw [ofTree?, read]
  simp only [fields, List.map_cons, List.map_nil, Option.map_some, Option.bind_eq_bind,
    Option.bind_some, optional?_text, Through.ofTree?_toJson]
  rfl

end ThroughRelation

namespace Relation

/-- The fields of the document of a relation, after its kind. -/
def fields : Relation → List (String × Option Json)
  | direct r => r.fields
  | through r => r.fields

theorem toJson_eq (r : Relation) :
    r.toJson = .obj (("type", .str r.kindName) :: present r.fields) := by
  cases r with
  | direct r =>
    simp [toJson, fields, DirectRelation.fields, textMember_eq, Polymorphic.members_eq,
      present_cons]
  | through r =>
    simp [toJson, fields, ThroughRelation.fields, Through.toJson, Through.fields, textMember_eq,
      Polymorphic.members_eq, present_cons]

theorem ofKind?_present (r : Relation) :
    ofKind? r.kindName (ofJson (.obj (present r.fields))) = some r := by
  cases r with
  | direct r =>
    have read := r.ofTree?_present
    rw [kindName, fields]
    cases hkind : r.kind
    all_goals
      rw [hkind] at read
      simp [ofKind?, DirectKind.name, read]
  | through r =>
    rw [kindName, fields, ofKind?, r.ofTree?_present]
    rfl

theorem names_fields (r : Relation) : "type" ∉ r.fields.map Prod.fst := by
  cases r <;> simp [fields, DirectRelation.fields, ThroughRelation.fields]

theorem numberFree_toJson (n : Nat) (r : Relation) : NumberFree (n + 3) r.toJson := by
  have polymorphic (m : Nat) (p : Option Polymorphic) :
      ∀ v ∈ p.map Polymorphic.toJson, NumberFree (m + 1) v := by
    intro v hv
    obtain ⟨p, -, rfl⟩ := Option.map_eq_some_iff.1 hv
    exact p.numberFree_toJson m
  have fields : ∀ f ∈ r.fields, ∀ v ∈ f.2, NumberFree (n + 2) v := by
    cases r with
    | direct r => simpa [fields, DirectRelation.fields] using polymorphic (n + 1) r.polymorphic
    | through r =>
      have table : NumberFree (n + 2) r.through.toJson :=
        numberFree_present (by simpa [Through.fields] using polymorphic n r.through.polymorphic)
      simpa [fields, ThroughRelation.fields] using table
  rw [toJson_eq]
  refine .obj fun m hm => ?_
  obtain rfl | hm := List.mem_cons.1 hm
  · exact .str _
  · exact fields _ (mem_present.1 hm) m.2 rfl

/-- The kind of a relation is found among its fields, which are read without it. -/
theorem ofTree?_toJson (n : Nat) (r : Relation) :
    ofTree? (some (n + 3)) (ofJson r.toJson) = some r := by
  have other : ∀ t ∈ ofMembers (present r.fields), t.1 ≠ some "type" := by
    intro t ht heq
    rw [ofMembers_eq] at ht
    obtain ⟨m, hm, rfl⟩ := List.mem_map.1 ht
    exact r.names_fields (List.mem_map.2 ⟨_, mem_present.1 hm, Option.some.inj heq⟩)
  have kinds : (ofMembers (present r.fields)).filter (fun t => t.1 == some "type") = [] :=
    List.filter_eq_nil_iff.2 fun t ht => by simpa using other t ht
  have rest : (ofMembers (present r.fields)).filter (fun t => t.1 != some "type") =
      ofMembers (present r.fields) :=
    List.filter_eq_self.2 fun t ht => by simpa using other t ht
  have meaningful := (r.numberFree_toJson n).isMeaningful
  rw [toJson_eq] at meaningful ⊢
  rw [ofTree?.eq_def, if_pos meaningful, ofJson, ofMembers]
  dsimp only
  rw [List.filter_cons_of_pos (by rfl), List.filter_cons_of_neg (by simp), kinds, rest]
  exact r.ofKind?_present

end Relation

/-! ## Entities and registries -/

/-- The document of the relations of an entity. -/
def Relations.toJson (rs : Relations) : Json :=
  .obj (rs.items.map fun (name, r) => (name, r.toJson))

theorem Relations.numberFree_toJson (n : Nat) (rs : Relations) : NumberFree (n + 4) rs.toJson := by
  refine .obj fun m hm => ?_
  obtain ⟨⟨name, r⟩, -, rfl⟩ := List.mem_map.1 hm
  exact r.numberFree_toJson n

theorem Relations.ofTree?_toJson (n : Nat) (rs : Relations) :
    ofTree? (some (n + 4)) (ofJson rs.toJson) = some rs := by
  rw [toJson, ofJson, ofTree?]
  refine Option.bind_eq_some_iff.2 ⟨some (n + 3), rfl,
    Option.bind_eq_some_iff.2 ⟨rs.items, ?_, congrArg some rs.ofList_items⟩⟩
  rw [ofMembers_eq, List.map_map, List.mapM_map]
  refine (mapM_eq_some fun m _ => ?_).trans (by rw [List.map_id'])
  simp [m.2.ofTree?_toJson n]

namespace Entity

/-- The fields of the document of an entity. -/
def fields (e : Entity) : List (String × Option Json) :=
  [("name", some (.str e.name)), ("table", e.table.map .str), ("schema", e.schema.map .str),
    ("properties", some (.arr (e.properties.map Property.toJson))),
    ("relations", some e.relations.toJson), ("settings", some e.settings.toJson)]

theorem toJson_eq (e : Entity) : e.toJson = .obj (present e.fields) := by
  simp [toJson, fields, Relations.toJson, textMember_eq, present_cons]

theorem numberFree_toJson (n : Nat) (e : Entity) : NumberFree (n + 5) e.toJson := by
  have properties : NumberFree (n + 4) (.arr (e.properties.map Property.toJson)) :=
    numberFree_elements fun p _ => p.numberFree_toJson (n + 2)
  rw [toJson_eq]
  exact numberFree_present (by simp [fields, properties, e.relations.numberFree_toJson n,
    e.settings.numberFree_toJson (n + 2)])

theorem ofTree?_toJson (n : Nat) (e : Entity) :
    ofTree? (some (n + 5)) (ofJson e.toJson) = some e := by
  have read : fields? ["name", "table", "schema", "properties", "relations", "settings"]
      (ofJson e.toJson) = some (e.fields.map fun f => f.2.map ofJson) := by
    rw [toJson_eq]
    exact fields?_present rfl (by decide)
  have properties : withDefault? [] (asList? (some (n + 4)) Property.ofTree?)
      (some (ofJson (.arr (e.properties.map Property.toJson)))) = some e.properties :=
    asList?_ofJson fun p _ => p.ofTree?_toJson (n + 2)
  have relations : withDefault? .empty (Relations.ofTree? (some (n + 4)))
      (some (ofJson e.relations.toJson)) = some e.relations := e.relations.ofTree?_toJson n
  have settings : withDefault? {} (Settings.ofTree? (some (n + 4)))
      (some (ofJson e.settings.toJson)) = some e.settings := e.settings.ofTree?_toJson (n + 2)
  rw [ofTree?, read]
  simp only [fields, List.map_cons, List.map_nil, Option.map_some, Budget.enter,
    Option.bind_eq_bind, Option.bind_some, optional?_text, properties, relations, settings]
  rfl

end Entity

namespace Registry

theorem toJson_eq (g : Registry) :
    g.toJson = .obj (present [("entities", some (.arr (g.entities.items.map Entity.toJson)))]) :=
  rfl

theorem numberFree_toJson (n : Nat) (g : Registry) : NumberFree (n + 7) g.toJson := by
  have entities : NumberFree (n + 6) (.arr (g.entities.items.map Entity.toJson)) :=
    numberFree_elements fun e _ => e.numberFree_toJson n
  rw [toJson_eq]
  exact numberFree_present (by simp [entities])

theorem entitiesOfTree?_toJson (n : Nat) (g : Registry) :
    entitiesOfTree? (some (n + 7)) (ofJson g.toJson) = some g.entities.items := by
  have read : fields? ["entities"] (ofJson g.toJson) =
      some [some (ofJson (.arr (g.entities.items.map Entity.toJson)))] := by
    rw [toJson_eq]
    exact fields?_present rfl (by decide)
  have entities : asList? (some (n + 6)) Entity.ofTree?
      (ofJson (.arr (g.entities.items.map Entity.toJson))) = some g.entities.items :=
    asList?_ofJson fun e _ => e.ofTree?_toJson n
  rw [entitiesOfTree?, read]
  exact entities

/-- Entities of different names make a registry. -/
theorem ofEntities_eq {es : List Entity} (h : (es.map Entity.name).Nodup) :
    ofEntities es = .ok ⟨.ofList es⟩ := by
  -- The registry to which the entities are added has none of their names.
  have registers (c : Catalog Entity Entity.name) (hc : ∀ e ∈ es, c.find? e.name = none) :
      es.foldlM register ⟨c⟩ = .ok ⟨es.foldl (fun c e => c.put e) c⟩ := by
    induction es generalizing c with
    | nil => rfl
    | cons e es ih =>
      obtain ⟨hname, hnames⟩ := List.nodup_cons.1 h
      have registered : register ⟨c⟩ e = .ok ⟨c.put e⟩ := by
        simp [register, contains, Catalog.contains, hc e List.mem_cons_self]
      have fresh : ∀ e' ∈ es, (c.put e).find? e'.name = none := by
        intro e' he'
        have other : e.name ≠ e'.name := fun heq => hname (heq ▸ List.mem_map_of_mem he')
        rw [Catalog.find?_put, if_neg other]
        exact hc e' (List.mem_cons_of_mem _ he')
      rw [List.foldlM_cons, registered]
      exact ih hnames (c.put e) fresh
  exact registers .empty fun _ _ => rfl

/-- A registry is read back from the text of its document. -/
theorem ofText_pretty (g : Registry) : ofText g.toJson.pretty = .ok g := by
  have names : (g.entities.items.map Entity.name).Nodup :=
    List.pairwise_map.2 (g.entities.sorted.imp fun h => String.ne_of_lt h)
  have read : (document? g.toJson.pretty >>= entitiesOfTree? .ofText) = some g.entities.items := by
    rw [document?_pretty (g.numberFree_toJson 120)]
    exact g.entitiesOfTree?_toJson 120
  rw [ofText, read]
  exact (ofEntities_eq names).trans (by rw [g.entities.ofList_items])

end Registry

end FilterSql
