import FilterSql.Proofs.Compiler.Counting
import FilterSql.Proofs.Compiler.Refusals
import FilterSql.Proofs.Plan.Replay

/-!
# Names of properties as keys

The order by identifiers makes entries of an order of their names, and a condition on a property is
a member of its name.  Both are read as keys, and a name need not be read as the property: it may
have blanks, points or parentheses, or be the name of a relation too.  The order by identifiers is
the one that is meant just in case all names are read so (`default_order_iff`), and a condition by
equality fails just in case planning refuses its name (`own_name_condition`).
-/

namespace FilterSql

open Sql

/-! ## Plans of one key -/

namespace Session

variable {g : Registry} {root : Entity} {scope : Scope} {key : String} {s s' : Session}

/-- If there are no joins after planning keys, each of them needs none. -/
theorem planKey_of_joinless {keys : List String}
    (h : planKeys g root scope s keys = (s', .ok ())) (none : s'.joins = []) :
    s' = s ∧ ∀ key ∈ keys, planKey g root scope s key = .ok s := by
  induction keys generalizing s with
  | nil => exact ⟨((Prod.mk.inj h).1).symm, by simp⟩
  | cons key keys ih =>
    obtain ⟨s₁, hkey, hkeys⟩ := planKeys_cons_eq_ok.1 h
    obtain rfl | joined := eq_or_joins_ne_nil hkey
    · obtain ⟨rfl, hrest⟩ := ih hkeys
      exact ⟨rfl, List.forall_mem_cons.2 ⟨hkey, hrest⟩⟩
    · exact absurd (List.prefix_nil.1 (none ▸ joins_prefix_planKeys hkeys)) joined

/-- Keys that need no joins are planned without any. -/
theorem planKeys_of_idle {keys : List String}
    (h : ∀ key ∈ keys, planKey g root scope s key = .ok s) :
    planKeys g root scope s keys = (s, .ok ()) := by
  induction keys with
  | nil => rfl
  | cons key keys ih =>
    obtain ⟨hkey, hkeys⟩ := List.forall_mem_cons.1 h
    exact planKeys_cons_eq_ok.2 ⟨s, hkey, ih hkeys⟩

/-- Entries of an order are planned without joins just in case each that may cross relations needs
none. -/
theorem plan_joinless_iff {order : List String} :
    (plan g root none order {} = (s, .ok ()) ∧ s.joins = []) ↔ s = {} ∧
      ∀ entry ∈ order, root.isRelationKey (orderKey entry) = true →
        planKey g root .order {} (orderKey entry) = .ok {} := by
  have planned : plan g root none order {} = planKeys g root .order {} (orderKeys root order) := rfl
  have asked {key : String} : key ∈ orderKeys root order ↔
      ∃ entry ∈ order, orderKey entry = key ∧ root.isRelationKey key = true := by
    simp only [orderKeys, List.mem_filter, List.mem_map]
    grind
  rw [planned]
  constructor
  · rintro ⟨h, none⟩
    obtain ⟨rfl, idle⟩ := planKey_of_joinless h none
    exact ⟨rfl, fun entry hentry hrelation => idle _ (asked.2 ⟨entry, hentry, rfl, hrelation⟩)⟩
  · rintro ⟨rfl, idle⟩
    refine ⟨planKeys_of_idle fun key hkey => ?_, rfl⟩
    obtain ⟨entry, hentry, rfl, hrelation⟩ := asked.1 hkey
    exact idle entry hentry hrelation

theorem endpoint?_fresh (scope : Scope) (key : String) :
    Session.endpoint? {} scope key = none := by
  cases scope <;> rfl

end Session

/-! ## The order by identifiers -/

/-- Rows are ordered by their identifiers when no order is asked for. -/
def Entity.SortsByIds (e : Entity) : Prop :=
  e.settings.idSort = .always ∨ (e.settings.idSort = .numericOnly ∧ e.hasOnlyNumericIds = true)

theorem Entity.SortsByIds.defaultOrder {e : Entity} (h : e.SortsByIds) :
    e.defaultOrder = e.idNames := by
  obtain h | ⟨h, numeric⟩ := h
  · rw [Entity.defaultOrder, h]
  · rw [Entity.defaultOrder, h]
    exact if_pos numeric

/-- Taken for an entry of an order, the name of a property stands for its column in ascending order,
and asks for no joins. -/
structure Entity.Steady (g : Registry) (root : Entity) (name : String) : Prop where
  item : root.orderItem? name = some ⟨root.columnExpr (some root.tableName) name, some .asc⟩
  idle : root.isRelationKey (orderKey name) = true →
    Session.planKey g root .order {} (orderKey name) = .ok {}

/-- A name of one word, without points and opening parentheses, and not of a relation, is steady. -/
theorem Entity.steady_of_word (g : Registry) {root : Entity} {name : String}
    (hname : name ∈ root.idNames) (word : orderWords name = [name])
    (plain : root.isRelationKey name = false) : root.Steady g name := by
  have key : orderKey name = name := by rw [orderKey, word]; rfl
  obtain ⟨p, hp, rfl⟩ := List.mem_map.1 hname
  have declared : root.hasProperty p.name = true := hasProperty_of_mem (List.mem_filter.1 hp).1
  refine ⟨?_, fun h => ?_⟩
  · rw [orderItem?, word]
    dsimp only
    rw [keyExpr, if_pos declared]
    rfl
  · rw [key, plain] at h
    cases h

namespace Compiler

variable {c : Compiler} {root : Entity} {entity : String}

/-- The empty filter of an entity that is ordered by its identifiers is compiled to a statement
without joins, in the order of the columns of the identifiers, just in case their names are steady.
Names of one word, without points and opening parentheses, and not of relations, are. -/
theorem default_order_iff (hroot : c.registry.entity? entity = some root)
    (hsort : root.SortsByIds) :
    ((∃ built, c.buildSelect root {} = .ok built ∧
        c.select entity {} = .ok (built.render c.dialect) ∧ built.joins = [] ∧
        built.orderBy = root.idNames.map fun name =>
          ⟨root.columnExpr (some root.tableName) name, some .asc⟩) ↔
      ∀ name ∈ root.idNames, root.Steady c.registry name) ∧
    ∀ name ∈ root.idNames, orderWords name = [name] → root.isRelationKey name = false →
      root.Steady c.registry name := by
  have effective : Filter.effectiveOrder {} root = root.idNames := hsort.defaultOrder
  have orderBy := orderItems_of_none c.registry root (Session.endpoint?_fresh .order) root.idNames
  refine ⟨⟨?_, fun steady => ?_⟩, fun name => Entity.steady_of_word c.registry⟩
  · rintro ⟨built, hbuilt, -, hjoins, horder⟩ name hname
    obtain ⟨s, condition, items, joins, hs, -, ho, hj, rfl⟩ := buildSelect_eq_ok.1 hbuilt
    rw [effective] at hs ho
    obtain ⟨rfl, idle⟩ := Session.plan_joinless_iff.1
      ⟨planned_eq_ok.1 hs, (joins_eq_nil_of_joinClauses hj).1 hjoins⟩
    have items := (Except.ok.inj (orderBy.symm.trans ho)).trans horder
    exact ⟨List.filterMap_eq_map_iff_forall_eq_some.1 items name hname, idle name hname⟩
  · have items : root.idNames.filterMap root.orderItem? = root.idNames.map fun name =>
        ⟨root.columnExpr (some root.tableName) name, some .asc⟩ :=
      List.filterMap_eq_map_iff_forall_eq_some.2 fun name hname => (steady name hname).item
    obtain ⟨hplan, -⟩ := Session.plan_joinless_iff.2
      ⟨rfl, fun name hname => (steady name hname).idle⟩
    have hbuilt := (buildSelect_eq_ok (f := {})).2 ⟨{}, none, _, [],
      planned_eq_ok.2 (effective.symm ▸ hplan), rfl, effective.symm ▸ orderBy, rfl, rfl⟩
    refine ⟨_, hbuilt, ?_, rfl, ?_⟩
    · rw [select_eq hroot, hbuilt]
      rfl
    · rw [effective]
      exact items

/-- Profiles of users, which are identified by their users. -/
def profiles : Compiler where
  registry := ⟨.ofList [
    { name := "User", properties := [{ name := "id", type := .number, isId := true }] },
    { name := "Profile", properties := [
        { name := "user", storage := some "user_id", type := .number, isId := true },
        { name := "bio", type := .string }],
      relations := .ofList [("user", .direct ⟨.belongsTo, "User", some "user", none, none⟩)] }]⟩

theorem default_order_iff_profiles : ∃ root, profiles.registry.entity? "User" = some root ∧
    root.SortsByIds ∧
    (∀ name ∈ root.idNames, orderWords name = [name] ∧ root.isRelationKey name = false) ∧
    ((∃ built, profiles.buildSelect root {} = .ok built ∧
        profiles.select "User" {} = .ok (built.render profiles.dialect) ∧ built.joins = [] ∧
        built.orderBy = root.idNames.map fun name =>
          ⟨root.columnExpr (some root.tableName) name, some .asc⟩) ↔
      ∀ name ∈ root.idNames, root.Steady profiles.registry name) ∧
    ∀ name ∈ root.idNames, orderWords name = [name] → root.isRelationKey name = false →
      root.Steady profiles.registry name := by
  have facts : ∃ root ∈ profiles.registry.entity? "User", root.settings.idSort = .always ∧
      ∀ name ∈ root.idNames, orderWords name = [name] ∧ root.isRelationKey name = false := by
    decide +kernel
  obtain ⟨root, hroot, hsort, words⟩ := facts
  exact ⟨root, hroot, .inl hsort, words, default_order_iff hroot (.inl hsort)⟩

/-- The identifier of a profile is called like a relation.  As an entry of an order its name is taken
for the relation, so profiles cannot be fetched without an order. -/
theorem default_order_refused_profiles : ∃ root ∈ profiles.registry.entity? "Profile",
    root.settings.idSort = .always ∧ root.idNames = ["user"] ∧
    profiles.select "Profile" {} = .error (.missingOrderProperty "user") := by
  have facts : ∃ root ∈ profiles.registry.entity? "Profile", root.settings.idSort = .always ∧
      root.idNames = ["user"] ∧ (profiles.select "Profile" {}).map (·.text) =
        .error (.missingOrderProperty "user") := by
    decide +kernel
  obtain ⟨root, hroot, hsort, names, hselect⟩ := facts
  exact ⟨root, hroot, hsort, names, map_eq_error.1 hselect⟩

end Compiler

/-! ## Conditions by equality -/

/-- A member of the name is a condition on a key: it is no group and no directive. -/
structure IsKey (name : String) : Prop where
  group : isGroup name = false
  expr : name ≠ exprDirective
  join : name ≠ joinDirective

/-- A scalar other than null and the empty text. -/
def Json.isGiven : Json → Bool
  | .bool _ | .num _ => true
  | .str s => s != ""
  | _ => false

theorem isBlankMember_of_isGiven {value : Json} (h : value.isGiven = true) :
    isBlankMember value = false := by
  cases value with
  | bool | num => rfl
  | str s => simpa [Json.isGiven, isBlankMember] using h
  | null | arr | obj => cases h

namespace Session

variable {g : Registry} {root : Entity} {name : String}

/-- Planning refuses the key: it may cross relations, and what it stands for cannot be told, or its
relations cannot be resolved. -/
def Refuses (g : Registry) (root : Entity) (key : String) (e : CompileError) : Prop :=
  root.isRelationKey key = true ∧ (Chain.ofKey g root key = .error e ∨
    ∃ c, Chain.ofKey g root key = .ok c ∧ c ≠ .plain ∧ g.hops? root c.segments = .error e)

theorem conditionKeys_single (root : Entity) (hname : IsKey name) (value : Json) :
    conditionKeys root [(name, value)] =
      .ok (if root.isRelationKey name then [name] else []) := by
  have mentioned : FilterKey.ofClause [(name, value)] = .ok [⟨name, false⟩] := by
    rw [FilterKey.ofClause, FilterKey.mentions, hname.group, FilterKey.ofMember,
      if_neg hname.expr, if_neg hname.join]
    rfl
  rw [conditionKeys, mentioned]
  cases hrelation : root.isRelationKey name <;> simp [Except.map, hrelation]

/-- A condition on one key plans that key, if it may cross relations, and nothing else. -/
theorem plan_single (g : Registry) (root : Entity) (hname : IsKey name) (value : Json)
    (s : Session) : plan g root (some [(name, value)]) [] s =
      planKeys g root .condition s (if root.isRelationKey name then [name] else []) := by
  rw [plan, Option.getD_some, conditionKeys_single root hname]
  dsimp only
  generalize planKeys g root .condition s _ = planned
  obtain ⟨s', e | -⟩ := planned <;> rfl

/-- A condition on one key is planned unless planning refuses the key, and fails if it does. -/
theorem plan_single_cases (g : Registry) (root : Entity) (hname : IsKey name) (value : Json)
    (s : Session) :
    (∃ e, Refuses g root name e ∧ plan g root (some [(name, value)]) [] s = (s, .error e)) ∨
    ∃ s', (∀ e, ¬ Refuses g root name e) ∧
      plan g root (some [(name, value)]) [] s = (s', .ok ()) := by
  rw [plan_single g root hname]
  cases hrelation : root.isRelationKey name with
  | false =>
    refine .inr ⟨s, fun e hrefuses => ?_, rfl⟩
    cases hrelation.symm.trans hrefuses.1
  | true =>
    rw [if_pos rfl, planKeys_cons]
    cases hkey : planKey g root .condition s name with
    | error e => exact .inl ⟨e, ⟨hrelation, planKey_eq_error.1 hkey⟩, rfl⟩
    | ok s' =>
      refine .inr ⟨s', fun e hrefuses => ?_, rfl⟩
      cases hkey.symm.trans (planKey_eq_error.2 hrefuses.2)

/-- In all sessions that planning comes to, conditions cross relations only if there are joins. -/
theorem Reached.joins_ne_nil {s : Session} (h : Reached g root s) (hs : s.hasConditions = true) :
    s.joins ≠ [] := by
  have nonempty : s.conditions.items ≠ [] := by simpa [hasConditions] using hs
  obtain ⟨item, rest, hitems⟩ := List.exists_cons_of_ne_nil nonempty
  have arrives : s.endpoint? .condition item.1 = some item.2 := by
    simp [endpoint?, endpoints, Catalog.find?, hitems]
  obtain ⟨x, c, j, -, -, -, hj, -⟩ := h.ends arrives
  exact List.ne_nil_of_mem (join?_eq_some hj).1

end Session

namespace View

variable {w : View} {name : String} {value : Json}

/-- Columns of the root say their table just in case there are joins. -/
theorem rootQualifier_of_reached (h : Session.Reached w.registry w.root w.session) :
    w.rootQualifier = if w.session.joins.isEmpty then none else some w.root.tableName := by
  rw [rootQualifier, Session.hasJoins]
  cases hjoins : w.session.joins with
  | cons => rfl
  | nil =>
    have none : w.session.hasConditions = false := by
      by_contra hconditions
      exact h.joins_ne_nil (by simpa using hconditions) hjoins
    rw [none]
    rfl

/-- A condition by equality compares the column of the property with the bound value. -/
theorem compile_single (hname : IsKey name) (hproperty : w.root.hasProperty name = true)
    (hvalue : value.isGiven = true) (hops : w.operators.get "=" = .ok (.compare .eq)) :
    w.compile (some [(name, value)]) = .ok (some (.compare
      (w.root.columnExpr w.rootQualifier name) .eq (bound value))) := by
  have column : w.resolveKey name = .ok (some (w.root.columnExpr w.rootQualifier name)) := by
    rw [resolveKey, if_pos hproperty]
  have equal (column : Expr) :
      w.field column value = .ok [.compare column .eq (bound value)] := by
    cases value with
    | null | arr | obj => cases hvalue
    | bool | num | str =>
      show w.equality column _ .other = _
      rw [equality, hops]
      rfl
  have here : w.member name value (w.groupValue value) (fun column => w.field column value) =
      .ok [.compare (w.root.columnExpr w.rootQualifier name) .eq (bound value)] := by
    rw [member, isBlankMember_of_isGiven hvalue, hname.group, column]
    simp [hname.expr, hname.join, equal, bind, Except.bind]
  rw [compile, members, here]
  rfl

end View

namespace Compiler

variable {c : Compiler} {root : Entity} {entity name : String} {value : Json}

theorem effectiveOrder_ofCondition (hsort : root.settings.idSort = .never) (condition : Json) :
    (Filter.ofCondition condition).effectiveOrder root = [] := by
  show root.defaultOrder = []
  rw [Entity.defaultOrder, hsort]

/-- Once a condition by equality is planned, the statement is built under that condition. -/
theorem exists_buildSelect_single (hroot : c.registry.entity? root.name = some root)
    (hsort : root.settings.idSort = .never) (hname : IsKey name)
    (hproperty : root.hasProperty name = true) (hvalue : value.isGiven = true)
    (hops : c.operators.get "=" = .ok (.compare .eq)) {s : Session}
    (hs : Session.plan c.registry root (some [(name, value)]) [] {} = (s, .ok ())) :
    ∃ built, c.buildSelect root (.ofCondition (.obj [(name, value)])) = .ok built ∧
      built.condition = some (.compare
        (root.columnExpr (if built.joins.isEmpty then none else some root.tableName) name) .eq
        (bound value)) := by
  have reached := Session.Reached.of_plan hs
  have effective := effectiveOrder_ofCondition hsort (.obj [(name, value)])
  have condition : c.condition root s (some [(name, value)]) = .ok (some (.compare
      (root.columnExpr (if s.joins.isEmpty then none else some root.tableName) name) .eq
      (bound value))) := by
    rw [← View.rootQualifier_of_reached (w := ⟨c.registry, root, s, c.operators⟩) reached]
    exact View.compile_single hname hproperty hvalue hops
  obtain ⟨joins, hjoins⟩ := (reached.grounded hroot).exists_joinClauses
  refine ⟨_, buildSelect_eq_ok.2 ⟨s, _, [], joins, planned_eq_ok.2 (effective.symm ▸ hs),
    condition, effective.symm ▸ rfl, hjoins, rfl⟩, ?_⟩
  have same : joins.isEmpty = s.joins.isEmpty := by
    rw [Bool.eq_iff_iff, List.isEmpty_iff, List.isEmpty_iff]
    exact joins_eq_nil_of_joinClauses hjoins
  dsimp only
  rw [same]

/-- A condition that a declared property equals a value fails just in case planning refuses the name
of the property, with the error of planning.  Otherwise it compares the column of the property with
the bound value, and says the table of the root as soon as there are joins. -/
theorem own_name_condition (hroot : c.registry.entity? entity = some root)
    (hsort : root.settings.idSort = .never) (hname : IsKey name)
    (hproperty : root.hasProperty name = true) (hvalue : value.isGiven = true)
    (hops : c.operators.get "=" = .ok (.compare .eq)) :
    (∃ e, Session.Refuses c.registry root name e ∧
      c.select entity (.ofCondition (.obj [(name, value)])) = .error e) ∨
    ∃ built, (∀ e, ¬ Session.Refuses c.registry root name e) ∧
      c.buildSelect root (.ofCondition (.obj [(name, value)])) = .ok built ∧
      c.select entity (.ofCondition (.obj [(name, value)])) = .ok (built.render c.dialect) ∧
      built.condition = some (.compare
        (root.columnExpr (if built.joins.isEmpty then none else some root.tableName) name) .eq
        (bound value)) := by
  rw [select_eq hroot]
  obtain ⟨e, hrefuses, hplan⟩ | ⟨s, hplanned, hplan⟩ :=
    Session.plan_single_cases c.registry root hname value {}
  · have failed : c.planned root (some [(name, value)]) [] = .error e :=
      planned_eq_error.2 (by rw [hplan])
    have fails : c.buildSelect root (.ofCondition (.obj [(name, value)])) = .error e := by
      rw [buildSelect, effectiveOrder_ofCondition hsort]
      exact congrArg (fun planned => planned >>= _) failed
    rw [fails]
    exact .inl ⟨e, hrefuses, rfl⟩
  · have registered : c.registry.entity? root.name = some root := by
      rw [Registry.name_of_entity? hroot, hroot]
    obtain ⟨built, hbuilt, hcondition⟩ :=
      exists_buildSelect_single registered hsort hname hproperty hvalue hops hplan
    rw [hbuilt]
    exact .inr ⟨built, hplanned, rfl, rfl, hcondition⟩

/-- Users with a property whose name has a point. -/
def addresses : Compiler where
  registry := ⟨.ofList [{
    name := "User"
    properties := [
      { name := "id", type := .number, isId := true },
      { name := "zip.code", storage := some "zip_code", type := .string }]
    settings := { idSort := .never } }]⟩

/-- The users of an address. -/
def zipFilter : Filter := .ofCondition (.obj [("zip.code", .str "10115")])

theorem own_name_condition_addresses : ∃ root, addresses.registry.entity? "User" = some root ∧
    root.settings.idSort = .never ∧ IsKey "id" ∧ root.hasProperty "id" = true ∧
    (Json.num (.int 7)).isGiven = true ∧ addresses.operators.get "=" = .ok (.compare .eq) ∧
    root.isRelationKey "id" = false ∧
    ((∃ e, Session.Refuses addresses.registry root "id" e ∧
      addresses.select "User" (.ofCondition (.obj [("id", .num (.int 7))])) = .error e) ∨
    ∃ built, (∀ e, ¬ Session.Refuses addresses.registry root "id" e) ∧
      addresses.buildSelect root (.ofCondition (.obj [("id", .num (.int 7))])) = .ok built ∧
      addresses.select "User" (.ofCondition (.obj [("id", .num (.int 7))])) =
        .ok (built.render addresses.dialect) ∧
      built.condition = some (.compare
        (root.columnExpr (if built.joins.isEmpty then none else some root.tableName) "id") .eq
        (bound (.num (.int 7))))) := by
  have facts : ∃ root ∈ addresses.registry.entity? "User", root.settings.idSort = .never ∧
      root.hasProperty "id" = true ∧ root.isRelationKey "id" = false := by
    decide +kernel
  have key : IsKey "id" := ⟨by decide, by decide, by decide⟩
  have equality : addresses.operators.get "=" = .ok (.compare .eq) := by decide +kernel
  obtain ⟨root, hroot, hsort, hproperty, hrelation⟩ := facts
  exact ⟨root, hroot, hsort, key, hproperty, rfl, equality, hrelation,
    own_name_condition hroot hsort key hproperty rfl equality⟩

/-- The zip code of a user is a declared property.  Its name is taken for a path that begins with
`zip`, so users cannot be filtered by it. -/
theorem own_name_refused_addresses : ∃ root ∈ addresses.registry.entity? "User",
    root.settings.idSort = .never ∧ IsKey "zip.code" ∧ root.hasProperty "zip.code" = true ∧
    (Json.str "10115").isGiven = true ∧
    addresses.select "User" zipFilter = .error (.unknownPath "User" "zip.code") := by
  have facts : ∃ root ∈ addresses.registry.entity? "User", root.settings.idSort = .never ∧
      root.hasProperty "zip.code" = true ∧ (addresses.select "User" zipFilter).map (·.text) =
        .error (.unknownPath "User" "zip.code") := by
    decide +kernel
  obtain ⟨root, hroot, hsort, hproperty, hselect⟩ := facts
  exact ⟨root, hroot, hsort, ⟨by decide, by decide, by decide⟩, hproperty, by decide,
    map_eq_error.1 hselect⟩

end Compiler

end FilterSql
