import FilterSql.Compiler
import FilterSql.Filter.Document
import FilterSql.Proofs.Json.Distinct
import FilterSql.Proofs.Json.Records

/-!
# Filters and their documents

A filter that was read from a document, whatever the shape of that, is read back from its own
(`Filter.ofJson?_toJson`).  Reading takes null for an absent part and keeps one member of each name,
so the parts of such a filter are no nulls and have distinct names (`Filter.Kept`).
-/

namespace FilterSql

namespace Tree

variable {α : Type} {read : Tree → Option α}

/-- An optional part is read from a tree other than null. -/
theorem exists_of_optional? {part : Option Tree} {value : Option α}
    (h : optional? read part = some value) {a : α} (ha : a ∈ value) :
    ∃ t, t ≠ .null ∧ read t = some a := by
  obtain rfl := Option.mem_def.1 ha
  unfold optional? at h
  split at h
  · cases h
  · cases h
  · next t hne =>
    obtain ⟨a', hread, same⟩ := Option.map_eq_some_iff.1 h
    exact ⟨t, fun hnull => hne hnull, Option.some.inj same ▸ hread⟩

/-- An optional part is read back if it is not written as null. -/
theorem optional?_ofJson {write : α → Json} {value : Option α}
    (h : ∀ a ∈ value, write a ≠ .null ∧ read (ofJson (write a)) = some a) :
    optional? read ((value.map write).map ofJson) = some value := by
  cases value with
  | none => rfl
  | some a =>
    obtain ⟨hne, hread⟩ := h a rfl
    rw [Option.map_some, Option.map_some, optional?, hread, Option.map_some]
    intro hnull
    cases hj : write a with
    | null => exact hne hj
    | _ => simp [hj, ofJson] at hnull

theorem json?_ne_null {b : Budget} {t : Tree} (ht : t ≠ .null) {j : Json}
    (h : t.json? b = some j) : j ≠ .null := by
  rintro rfl
  cases t with
  | null => exact ht rfl
  | bool => cases h
  | number n => cases n <;> cases h
  | text s => cases s <;> cases h
  | list xs =>
    obtain ⟨inner, -, h⟩ := Option.bind_eq_some_iff.1 h
    obtain ⟨js, -, h⟩ := Option.bind_eq_some_iff.1 h
    cases h
  | record ms =>
    obtain ⟨inner, -, h⟩ := Option.bind_eq_some_iff.1 h
    obtain ⟨js, -, h⟩ := Option.bind_eq_some_iff.1 h
    cases h

end Tree

/-! ## Orders and projections -/

theorem OrderSpec.ofTree?_toJson (o : OrderSpec) : ofTree? none (Tree.ofJson o.toJson) = some o := by
  cases o with
  | one s => rfl
  | many ss =>
    show Option.map many (Tree.asList? none _ (Tree.ofJson (.arr (ss.map Json.str)))) = _
    rw [Tree.asList?_of_enter rfl fun s _ => rfl, Option.map_some]

/-- The flags of a projection have distinct names. -/
def FieldsSpec.Kept : FieldsSpec → Prop
  | list _ => True
  | flags ms => (Json.obj ms).Distinct

theorem FieldsSpec.kept_of_ofTree? {b : Budget} {t : Tree} {s : FieldsSpec}
    (h : ofTree? b t = some s) : s.Kept := by
  unfold ofTree? at h
  split at h
  · split at h
    · next hread =>
      obtain rfl := Option.some.inj h
      exact Tree.distinct_of_json? hread
    · cases h
  · obtain ⟨names, -, rfl⟩ := Option.map_eq_some_iff.1 h
    trivial

theorem FieldsSpec.Kept.ofTree?_toJson {s : FieldsSpec} (h : s.Kept) :
    ofTree? none (Tree.ofJson s.toJson) = some s := by
  cases s with
  | list names =>
    show Option.map list (Tree.asList? none _ (Tree.ofJson (.arr (names.map Json.str)))) = _
    rw [Tree.asList?_of_enter rfl fun s _ => rfl, Option.map_some]
  | flags ms =>
    have read := Json.Distinct.json?_ofJson h
    rw [Tree.ofJson] at read
    rw [toJson, Tree.ofJson, ofTree?, read]

namespace Filter

/-! ## Filters -/

/-- A part of a filter, if it is there, is not null and has distinct names. -/
def KeptPart (part : Option Json) : Prop := ∀ j ∈ part, j ≠ .null ∧ j.Distinct

/-- The parts of a filter are as reading leaves them. -/
structure Kept (f : Filter) : Prop where
  condition : KeptPart f.condition
  limit : KeptPart f.limit
  offset : KeptPart f.offset
  skip : KeptPart f.skip
  fields : ∀ s ∈ f.fields, s.Kept

theorem keptPart_of_optional? {b : Budget} {t : Option Tree} {part : Option Json}
    (h : Tree.optional? (Tree.json? b) t = some part) : KeptPart part := by
  intro j hj
  obtain ⟨t, ht, hread⟩ := Tree.exists_of_optional? h hj
  exact ⟨Tree.json?_ne_null ht hread, Tree.distinct_of_json? hread⟩

theorem KeptPart.optional?_ofJson {part : Option Json} (h : KeptPart part) :
    Tree.optional? (Tree.json? none) (part.map Tree.ofJson) = some part := by
  have read : Tree.optional? (Tree.json? none) ((part.map id).map Tree.ofJson) = some part :=
    Tree.optional?_ofJson fun j hj => ⟨(h j hj).1, (h j hj).2.json?_ofJson⟩
  rwa [Option.map_id, id] at read

theorem kept_of_ofTree? {b : Budget} {t : Tree} {f : Filter} (h : ofTree? b t = some f) :
    f.Kept := by
  obtain ⟨inner, -, h⟩ := Option.bind_eq_some_iff.1 h
  obtain ⟨parts, -, h⟩ := Option.bind_eq_some_iff.1 h
  split at h
  · obtain ⟨condition, hcondition, h⟩ := Option.bind_eq_some_iff.1 h
    obtain ⟨order, -, h⟩ := Option.bind_eq_some_iff.1 h
    obtain ⟨limit, hlimit, h⟩ := Option.bind_eq_some_iff.1 h
    obtain ⟨offset, hoffset, h⟩ := Option.bind_eq_some_iff.1 h
    obtain ⟨skip, hskip, h⟩ := Option.bind_eq_some_iff.1 h
    obtain ⟨fields, hfields, h⟩ := Option.bind_eq_some_iff.1 h
    obtain rfl := Option.some.inj h
    refine ⟨keptPart_of_optional? hcondition, keptPart_of_optional? hlimit,
      keptPart_of_optional? hoffset, keptPart_of_optional? hskip, fun s hs => ?_⟩
    obtain ⟨t, -, hread⟩ := Tree.exists_of_optional? hfields hs
    exact FieldsSpec.kept_of_ofTree? hread
  · cases h

/-- The members of the document of a filter. -/
def parts (f : Filter) : List (String × Option Json) :=
  [("where", f.condition), ("order", f.order.map OrderSpec.toJson), ("limit", f.limit),
    ("offset", f.offset), ("skip", f.skip), ("fields", f.fields.map FieldsSpec.toJson)]

theorem toJson_eq (f : Filter) : f.toJson = .obj (Json.present f.parts) := by
  have member (name : String) (part : Option Json) :
      optionalMember name part = (part.map fun j => (name, j)).toList := by
    cases part <;> rfl
  simp only [toJson, parts, Json.present_cons, Json.present_nil, member, List.append_assoc,
    List.append_nil]

/-- A filter is read back if its parts are as reading leaves them. -/
theorem Kept.reads_back {f : Filter} (h : f.Kept) : ofJson? f.toJson = some f := by
  have order : Tree.optional? (OrderSpec.ofTree? none)
      ((f.order.map OrderSpec.toJson).map Tree.ofJson) = some f.order :=
    Tree.optional?_ofJson fun o _ => ⟨by cases o <;> nofun, o.ofTree?_toJson⟩
  have fields : Tree.optional? (FieldsSpec.ofTree? none)
      ((f.fields.map FieldsSpec.toJson).map Tree.ofJson) = some f.fields :=
    Tree.optional?_ofJson fun s hs => ⟨by cases s <;> nofun, (h.fields s hs).ofTree?_toJson⟩
  have names : f.parts.map Prod.fst = memberNames := rfl
  have read := Tree.fields?_present names (by decide)
  rw [ofJson?, toJson_eq, ofTree?, read]
  simp only [parts, List.map_cons, List.map_nil, Budget.enter, Option.bind_eq_bind,
    Option.bind_some, h.condition.optional?_ofJson, order, h.limit.optional?_ofJson,
    h.offset.optional?_ofJson, h.skip.optional?_ofJson, fields]
  rfl

/-- A filter that was read is read back from its own document, so that filter has the same order and
gives the same statements. -/
theorem ofJson?_toJson {j : Json} {f : Filter} (h : ofJson? j = some f) :
    ofJson? f.toJson = some f ∧
      (ofJson? f.toJson).map orderEntries = some f.orderEntries ∧
        ∀ (c : Compiler) (entity : String),
          (ofJson? f.toJson).map (c.select entity) = some (c.select entity f) := by
  have read := (kept_of_ofTree? h).reads_back
  rw [read]
  exact ⟨rfl, rfl, fun _ _ => rfl⟩

/-- An object with a null among its members, and a list. -/
theorem ofJson?_toJson_shapes :
    ofJson? { condition := some (.obj [("a", .null)]), order := some (.many ["b"]),
              fields := some (.flags [("c", .bool true), ("b", .int 1)]) : Filter }.toJson =
      some { condition := some (.obj [("a", .null)]), order := some (.many ["b"]),
             fields := some (.flags [("c", .bool true), ("b", .int 1)]) } ∧
    ofJson? { condition := some (.arr []), order := some (.one "b"), limit := some (.str "5") :
      Filter }.toJson =
        some { condition := some (.arr []), order := some (.one "b"), limit := some (.str "5") } :=
  ⟨(ofJson?_toJson (j := .obj [("fields", .obj [("c", .bool true), ("b", .int 1)]),
      ("where", .obj [("a", .null)]), ("limit", .null), ("order", .arr [.str "b"])]) rfl).1,
    (ofJson?_toJson (j := .arr [.arr [], .str "b", .str "5", .null]) rfl).1⟩

end Filter

end FilterSql
