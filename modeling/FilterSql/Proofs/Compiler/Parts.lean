import FilterSql.Compiler
import FilterSql.Proofs.Sql.Rendering
import FilterSql.Proofs.Where.Shape

/-!
# Parts of compiled statements

What the clauses of a compiled statement consist of.  All columns, apart from those inside the
conditions, come from expressions that read a single column of one table (`Expr.Reads`).
`buildSelect_eq_ok` and `buildCount_cases` say how the parts make a statement.
-/

namespace FilterSql

open Sql

/-- The atom is no function. -/
def Sql.Atom.Plain : Atom → Prop
  | .function _ => False
  | _ => True

theorem Sql.Atom.Plain.known {a : Atom} (h : a.Plain) : a.Known := by
  cases a with
  | function name => exact h.elim
  | column | value | all => trivial

/-- The expression calls no functions. -/
def Sql.Expr.Plain (e : Expr) : Prop := ∀ a ∈ e.atoms, a.Plain

/-- The expression reads one column of a table, or a text inside it. -/
def Sql.Expr.Reads (qualifier : Option String) (e : Expr) : Prop :=
  ∃ name, e.atoms = [.column ⟨qualifier, name⟩]

theorem Sql.Expr.Reads.values {q : Option String} {e : Expr} (h : e.Reads q) : e.values = [] := by
  obtain ⟨name, h⟩ := h
  simp [Expr.values, h, Atom.value?]

theorem Sql.Expr.Reads.plain {q : Option String} {e : Expr} (h : e.Reads q) : e.Plain := by
  obtain ⟨name, h⟩ := h
  simp [Expr.Plain, h, Atom.Plain]

theorem Sql.Expr.Reads.qualifiers {q : Option String} {e : Expr} (h : e.Reads q) :
    e.qualifiers = [q] := by
  obtain ⟨name, h⟩ := h
  simp [Expr.qualifiers, h, Atom.qualifier?]

namespace Entity

theorem hasProperty_of_mem {e : Entity} {p : Property} (h : p ∈ e.properties) :
    e.hasProperty p.name = true := by
  rw [hasProperty, property?, List.find?_isSome]
  exact ⟨p, h, by simp⟩

theorem reads_columnExpr (e : Entity) (q : Option String) (property : String) :
    (e.columnExpr q property).Reads q := ⟨_, rfl⟩

theorem reads_keyExpr (e : Entity) (q : Option String) (key : String) :
    (e.keyExpr q key).Reads q := by
  unfold keyExpr
  split
  · exact e.reads_columnExpr q key
  · split
    · exact ⟨_, rfl⟩
    · exact e.reads_columnExpr q key

theorem reads_idColumns {root : Entity} {e : Expr} (h : e ∈ root.idColumns) :
    e.Reads (some root.tableName) := by
  obtain ⟨property, -, rfl⟩ := List.mem_map.1 h
  exact root.reads_columnExpr _ _

theorem mem_selectionColumns {root : Entity} {fields : Option FieldsSpec} {hasJoins : Bool}
    {e : Expr} (h : e ∈ root.selectionColumns fields hasJoins) :
    e.Reads (some root.tableName) ∨ e = .all (some root.tableName) := by
  have chosen : ∀ e ∈ ((root.selection? fields).getD []).map
      (root.columnExpr (some root.tableName)), e.Reads (some root.tableName) := by
    intro e he
    obtain ⟨property, -, rfl⟩ := List.mem_map.1 he
    exact root.reads_columnExpr _ _
  unfold selectionColumns at h
  split at h
  · split_ifs at h
    · exact .inr (by simpa using h)
    · simp at h
  · exact .inl (chosen e h)

end Entity

/-- A key of a condition reads a column of the root, or of the table at which the key arrives. -/
theorem View.reads_resolveKey {w : View} {key : String} {e : Expr}
    (h : w.resolveKey key = .ok (some e)) : ∃ q, e.Reads q ∧ (q = w.rootQualifier ∨
      ∃ p, w.session.endpoint? .condition key = some p ∧ q = some p.label) := by
  unfold resolveKey at h
  dsimp only at h
  split at h
  · obtain rfl := Option.some.inj (Except.ok.inj h)
    exact ⟨_, w.root.reads_columnExpr _ _, .inl rfl⟩
  split at h
  · obtain rfl := Option.some.inj (Except.ok.inj h)
    exact ⟨_, w.root.reads_keyExpr _ _, .inl rfl⟩
  split at h
  · rename_i label name property hp
    obtain ⟨entity, -, h⟩ := bind_eq_ok.1 h
    obtain rfl := Option.some.inj (pure_eq_ok.1 h)
    exact ⟨_, entity.reads_keyExpr _ _, .inr ⟨_, hp, rfl⟩⟩
  · simp at h

/-- A key of an order reads a column of the root, or of the table at which the key arrives. -/
theorem reads_orderExpr {g : Registry} {root : Entity} {s : Session} {key : String} {e : Expr}
    (h : orderExpr g root s key = .ok e) : ∃ q, e.Reads (some q) ∧
      (q = root.tableName ∨ ∃ p, s.endpoint? .order key = some p ∧ q = p.label) := by
  unfold orderExpr at h
  split at h
  · rename_i label name property hp
    obtain ⟨entity, -, h⟩ := bind_eq_ok.1 h
    obtain rfl := pure_eq_ok.1 h
    exact ⟨_, entity.reads_keyExpr _ _, .inr ⟨_, hp, rfl⟩⟩
  · simp at h
  · obtain rfl := Except.ok.inj h
    exact ⟨_, root.reads_keyExpr _ _, .inl rfl⟩

/-- Every key of an order has its item. -/
theorem forall₂_orderItems {g : Registry} {root : Entity} {s : Session} {order : List String}
    {items : List OrderItem} (h : orderItems g root s order = .ok items) :
    List.Forall₂ (fun key item => orderExpr g root s key = .ok item.expr)
      (order.filterMap fun entry => (orderWords entry).head?) items := by
  induction order generalizing items with
  | nil =>
    obtain rfl := Except.ok.inj h
    exact .nil
  | cons entry rest ih =>
    rw [orderItems] at h
    split at h
    · rename_i hwords
      rw [List.filterMap_cons_none (by rw [hwords]; rfl)]
      exact ih h
    · rename_i key directions hwords
      obtain ⟨e, he, h⟩ := bind_eq_ok.1 h
      obtain ⟨more, hmore, h⟩ := bind_eq_ok.1 h
      obtain rfl := pure_eq_ok.1 h
      rw [List.filterMap_cons_some (by rw [hwords]; rfl)]
      exact .cons he (ih hmore)

theorem mem_orderItems {g : Registry} {root : Entity} {s : Session} {order : List String}
    {items : List OrderItem} (h : orderItems g root s order = .ok items) {o : OrderItem}
    (ho : o ∈ items) : ∃ key, orderExpr g root s key = .ok o.expr := by
  obtain ⟨i, hi, rfl⟩ := List.getElem_of_mem ho
  obtain ⟨hlength, hget⟩ := List.forall₂_iff_get.1 (forall₂_orderItems h)
  exact ⟨_, hget i (hlength ▸ hi) hi⟩

/-! ## Joins -/

/-- The value that a join has to find at its parent. -/
def Join.discriminatorValue? (j : Join) : Option Value :=
  j.discriminator.map fun d => .string d.value

theorem atoms_joinClause {g : Registry} {j : Join} {clause : JoinClause}
    (h : g.joinClause j = .ok clause) : clause.label = some j.label ∧
      ∃ keyFrom keyTo property, clause.condition.atoms =
        .column ⟨some j.parentLabel, keyFrom⟩ :: .column ⟨some j.label, keyTo⟩ ::
          j.discriminatorValue?.toList.flatMap fun v =>
            [.column ⟨some j.parentLabel, property⟩, .value v] := by
  obtain ⟨parent, -, h⟩ := bind_eq_ok.1 h
  obtain ⟨target, -, h⟩ := bind_eq_ok.1 h
  obtain rfl := pure_eq_ok.1 h
  refine ⟨rfl, parent.column j.keyFrom, target.column j.keyTo, ?_⟩
  cases hd : j.discriminator with
  | none => exact ⟨"", by simp [Join.discriminatorValue?, hd]; rfl⟩
  | some d => exact ⟨parent.column d.property, by simp [Join.discriminatorValue?, hd]; rfl⟩

theorem values_joinClause {g : Registry} {j : Join} {clause : JoinClause}
    (h : g.joinClause j = .ok clause) : clause.condition.values = j.discriminatorValue?.toList := by
  obtain ⟨-, keyFrom, keyTo, property, h⟩ := atoms_joinClause h
  rw [Expr.values, h]
  cases j.discriminatorValue? <;> rfl

theorem qualifiers_joinClause {g : Registry} {j : Join} {clause : JoinClause}
    (h : g.joinClause j = .ok clause) {q : Option String} (hq : q ∈ clause.condition.qualifiers) :
    q = some j.parentLabel ∨ q = some j.label := by
  obtain ⟨-, keyFrom, keyTo, property, h⟩ := atoms_joinClause h
  rw [Expr.qualifiers, h] at hq
  cases hv : j.discriminatorValue? with
  | none => simpa [hv, Atom.qualifier?] using hq
  | some v =>
    have hq : q = some j.parentLabel ∨ q = some j.label ∨ q = some j.parentLabel := by
      simpa [hv, Atom.qualifier?] using hq
    obtain h | h | h := hq
    · exact .inl h
    · exact .inr h
    · exact .inl h

/-- The clauses of planned joins stand in the order of the plan. -/
theorem joinClauses_getElem? {g : Registry} {s : Session} {joins : List JoinClause}
    (h : g.joinClauses s = .ok joins) {i : Nat} {clause : JoinClause}
    (hi : joins[i]? = some clause) :
    ∃ j, s.joins[i]? = some j ∧ g.joinClause j = .ok clause := by
  obtain ⟨hl, hget⟩ := List.forall₂_iff_get.1 (mapM_eq_ok.1 h)
  obtain ⟨hlt, rfl⟩ := List.getElem?_eq_some_iff.1 hi
  exact ⟨_, List.getElem?_eq_getElem (hl ▸ hlt), hget i (hl ▸ hlt) hlt⟩

theorem values_joinClauses {g : Registry} {s : Session} {joins : List JoinClause}
    (h : g.joinClauses s = .ok joins) :
    joins.flatMap (fun j => j.condition.values) = s.joins.filterMap Join.discriminatorValue? := by
  replace h : List.Forall₂ (fun j clause => g.joinClause j = .ok clause) s.joins joins :=
    mapM_eq_ok.1 h
  generalize s.joins = planned at h ⊢
  induction h with
  | nil => rfl
  | cons hj _ ih =>
    rw [List.flatMap_cons, values_joinClause hj, ih]
    cases hv : Join.discriminatorValue? _ <;> simp [hv]

/-! ## Statements -/

namespace Compiler

variable {c : Compiler} {root : Entity} {f : Filter} {select : Select}

theorem planned_eq_ok {clause : Option Members} {order : List String} {s : Session} :
    c.planned root clause order = .ok s ↔
      Session.plan c.registry root clause order {} = (s, .ok ()) := by
  unfold planned
  split <;> simp_all

theorem planned_eq_error {clause : Option Members} {order : List String} {e : CompileError} :
    c.planned root clause order = .error e ↔
      (Session.plan c.registry root clause order {}).2 = .error e := by
  unfold planned
  split <;> simp_all

/-- A plan depends on the keys of the tree. -/
theorem planned_congr {clause clause' : Option Members}
    (h : Session.conditionKeys root (clause.getD []) =
      Session.conditionKeys root (clause'.getD [])) (order : List String) :
    c.planned root clause order = c.planned root clause' order := by
  rw [planned, planned, Session.plan, Session.plan, h]

theorem buildSelect_eq_ok : c.buildSelect root f = .ok select ↔
    ∃ s condition orderBy joins,
      c.planned root f.conditions? (f.effectiveOrder root) = .ok s ∧
      c.condition root s f.conditions? = .ok condition ∧
      orderItems c.registry root s (f.effectiveOrder root) = .ok orderBy ∧
      c.registry.joinClauses s = .ok joins ∧
      select = {
        columns := root.selectionColumns f.fields s.hasJoins
        source := some (.table root.storage none)
        joins, condition, orderBy
        groupBy := if s.hasJoins then root.idColumns else []
        limit := boundExpr? f.limit
        offset := boundExpr? (f.skip <|> f.offset) } := by
  simp only [buildSelect, bind_eq_ok, pure_eq_ok]
  grind

/-- A statement without joins comes of a plan without any. -/
theorem joins_eq_nil_of_joinClauses {g : Registry} {s : Session} {joins : List JoinClause}
    (h : g.joinClauses s = .ok joins) : joins = [] ↔ s.joins = [] := by
  have lengths := (mapM_eq_ok.1 h).length_eq
  rw [← List.length_eq_zero_iff, ← List.length_eq_zero_iff, lengths]

/-- The statement whose rows are counted when there are joins. -/
def groupedSelect (root : Entity) (joins : List JoinClause) (condition : Option Expr) : Select where
  columns := if root.idColumns.isEmpty then [.all (some root.tableName)] else root.idColumns
  source := some (.table root.storage none)
  joins := joins
  condition := condition
  groupBy := root.idColumns

theorem buildCount_cases (h : c.buildCount root f = .ok select) :
    ∃ s condition, c.planned root f.conditions? [] = .ok s ∧
      c.condition root s f.conditions? = .ok condition ∧
      ((s.joins = [] ∧ select = {
          columns := [countExpr], source := some (.table root.storage none), condition }) ∨
        ∃ joins, c.registry.joinClauses s = .ok joins ∧ s.joins ≠ [] ∧ select = {
          columns := [countExpr]
          source := some (.query (groupedSelect root joins condition) (some countedLabel)) }) := by
  obtain ⟨s, hs, h⟩ := bind_eq_ok.1 h
  obtain ⟨condition, hc, h⟩ := bind_eq_ok.1 h
  refine ⟨s, condition, hs, hc, ?_⟩
  split at h
  · rename_i hj
    obtain ⟨joins, hjoins, h⟩ := bind_eq_ok.1 h
    refine .inr ⟨joins, hjoins, by simpa [Session.hasJoins] using hj, ?_⟩
    exact (pure_eq_ok.1 h).symm
  · rename_i hj
    refine .inl ⟨by simpa [Session.hasJoins] using hj, ?_⟩
    exact (pure_eq_ok.1 h).symm

/-- Fetching from a registered entity is building a statement and rendering it. -/
theorem select_eq {entity : String} (h : c.registry.entity? entity = some root) (f : Filter) :
    c.select entity f = (c.buildSelect root f).map (·.render c.dialect) := by
  rw [Compiler.select, ofSchema_eq_ok.2 (Registry.entity_eq_ok.2 h)]
  rfl

/-- Counting a registered entity is building a statement and rendering it. -/
theorem count_eq {entity : String} (h : c.registry.entity? entity = some root)
    (clause : Option Json) : c.count entity clause =
      (c.buildCount root { condition := clause }).map (·.render c.dialect) := by
  rw [Compiler.count, ofSchema_eq_ok.2 (Registry.entity_eq_ok.2 h)]
  rfl

/-- What is rendered is built for a registered entity. -/
theorem registered_of_render {g : Registry} {d : Dialect} {entity : String} {st : Statement}
    (build : Entity → Except CompileError Select)
    (h : (do
      let root ← CompileError.ofSchema (g.entity entity)
      return (← build root).render d) = .ok st) :
    ∃ root built, g.entity? entity = some root ∧ build root = .ok built ∧ st = built.render d := by
  obtain ⟨root, hroot, h⟩ := bind_eq_ok.1 h
  obtain ⟨built, hbuilt, h⟩ := bind_eq_ok.1 h
  have registered := Registry.entity_eq_ok.1 (ofSchema_eq_ok.1 hroot)
  exact ⟨root, built, registered, hbuilt, (pure_eq_ok.1 h).symm⟩

theorem registered_of_select {entity : String} {st : Statement}
    (h : c.select entity f = .ok st) : ∃ root built, c.registry.entity? entity = some root ∧
      c.buildSelect root f = .ok built ∧ st = built.render c.dialect :=
  registered_of_render (fun root => c.buildSelect root f) h

theorem registered_of_count {entity : String} {clause : Option Json} {st : Statement}
    (h : c.count entity clause = .ok st) : ∃ root built, c.registry.entity? entity = some root ∧
      c.buildCount root { condition := clause } = .ok built ∧ st = built.render c.dialect :=
  registered_of_render (fun root => c.buildCount root { condition := clause }) h

/-! ### Filters that differ in their conditions -/

/-- The trees of conditions have the same plans, and under a plan conditions that `R` relates. -/
structure Exchangeable (c : Compiler) (root : Entity) (R : Option Expr → Option Expr → Prop)
    (clause clause' : Option Members) : Prop where
  planned : ∀ order, c.planned root clause order = c.planned root clause' order
  condition : ∀ s, Alike R (c.condition root s clause) (c.condition root s clause')

/-- Statements that differ in conditions that `R` relates are related by `S`. -/
def Carries (R : Option Expr → Option Expr → Prop) (S : Select → Select → Prop) : Prop :=
  ∀ {columns source joins groupBy orderBy limit offset condition condition'},
    R condition condition' →
      S ⟨columns, source, joins, condition, groupBy, orderBy, limit, offset⟩
        ⟨columns, source, joins, condition', groupBy, orderBy, limit, offset⟩

namespace Exchangeable

variable {R : Option Expr → Option Expr → Prop} {S : Select → Select → Prop}
  {clause clause' : Option Json}

theorem buildSelect (h : c.Exchangeable root R (clause >>= Json.obj?) (clause' >>= Json.obj?))
    (carries : Carries R S) (f : Filter) :
    Alike S (c.buildSelect root { f with condition := clause })
      (c.buildSelect root { f with condition := clause' }) := by
  unfold Compiler.buildSelect
  dsimp only [Filter.conditions?]
  rw [h.planned]
  refine Alike.bind_same fun s _ => (h.condition s).bind fun _ _ related => ?_
  exact Alike.bind_same fun orderBy _ => Alike.bind_same fun joins _ => .ok (carries related)

theorem buildCount (h : c.Exchangeable root R (clause >>= Json.obj?) (clause' >>= Json.obj?))
    (carries : Carries R S) (counted : ∀ {q q' : Select}, S q q' →
      S { columns := [countExpr], source := some (.query q (some countedLabel)) }
        { columns := [countExpr], source := some (.query q' (some countedLabel)) }) :
    Alike S (c.buildCount root { condition := clause })
      (c.buildCount root { condition := clause' }) := by
  unfold Compiler.buildCount
  dsimp only [Filter.conditions?]
  rw [h.planned]
  refine Alike.bind_same fun s _ => (h.condition s).bind fun _ _ related => ?_
  split_ifs
  · exact Alike.bind_same fun joins _ => .ok (counted (carries related))
  · exact Alike.bind_same fun joins _ => .ok (counted (carries related))
  · exact .ok (carries related)

end Exchangeable

/-! ### Functions -/

theorem plain_condition {s : Session} {clause : Option Members} {condition : Option Expr}
    (h : c.condition root s clause = .ok condition) : ∀ e ∈ condition, e.Plain := by
  rintro e rfl a ha
  rcases (View.compiled_compile h).atoms a ha with ⟨v, rfl⟩ | ⟨key, k, hk, ha⟩
  · trivial
  · obtain ⟨q, hq, -⟩ := View.reads_resolveKey hk
    exact hq.plain a ha

theorem plain_joinClauses {s : Session} {joins : List JoinClause}
    (h : c.registry.joinClauses s = .ok joins) : ∀ j ∈ joins, j.condition.Plain := by
  intro clause hclause a ha
  obtain ⟨i, hi⟩ := List.mem_iff_getElem?.1 hclause
  obtain ⟨j, -, hj⟩ := joinClauses_getElem? h hi
  obtain ⟨-, keyFrom, keyTo, property, hatoms⟩ := atoms_joinClause hj
  simp only [hatoms, List.mem_cons, List.mem_flatMap, List.not_mem_nil, or_false] at ha
  obtain rfl | rfl | ⟨v, -, rfl | rfl⟩ := ha <;> trivial

theorem plain_idColumns (root : Entity) : ∀ e ∈ root.idColumns, e.Plain := fun _ he =>
  (Entity.reads_idColumns he).plain

theorem plain_all (q : Option String) : (Expr.all q).Plain := by
  rintro a ha
  obtain rfl : a = .all q := by simpa [Expr.atoms] using ha
  trivial

theorem plain_boundExpr (j : Option Json) : ∀ e ∈ boundExpr? j, e.Plain := by
  intro e he
  obtain ⟨n, -, rfl⟩ := Option.map_eq_some_iff.1 he
  intro a ha
  obtain rfl : a = .value (.int n) := by simpa [Expr.atoms] using ha
  trivial

/-- The atoms of a statement without statements in it are those of its expressions. -/
theorem forall_atoms_select {P : Atom → Prop} {columns groupBy : List Expr} {t : Table}
    {label : Option String} {joins : List JoinClause} {condition limit offset : Option Expr}
    {orderBy : List OrderItem} (hColumns : ∀ e ∈ columns, ∀ a ∈ e.atoms, P a)
    (hJoins : ∀ j ∈ joins, ∀ a ∈ j.condition.atoms, P a)
    (hCondition : ∀ e ∈ condition, ∀ a ∈ e.atoms, P a)
    (hGroup : ∀ e ∈ groupBy, ∀ a ∈ e.atoms, P a)
    (hOrder : ∀ o ∈ orderBy, ∀ a ∈ o.expr.atoms, P a) (hLimit : ∀ e ∈ limit, ∀ a ∈ e.atoms, P a)
    (hOffset : ∀ e ∈ offset, ∀ a ∈ e.atoms, P a) :
    ∀ a ∈ Select.atoms ⟨columns, some (.table t label), joins, condition, groupBy, orderBy, limit,
      offset⟩, P a := by
  have list {α : Type} {f : α → Expr} {xs : List α} (h : ∀ x ∈ xs, ∀ a ∈ (f x).atoms, P a) :
      ∀ a ∈ xs.flatMap fun x => (f x).atoms, P a := by
    intro a ha
    obtain ⟨x, hx, ha⟩ := List.mem_flatMap.1 ha
    exact h x hx a ha
  have optional {e : Option Expr} (h : ∀ x ∈ e, ∀ a ∈ x.atoms, P a) :
      ∀ a ∈ e.toList.flatMap Expr.atoms, P a :=
    list (f := id) fun x hx => h x (Option.mem_toList.1 hx)
  simp only [Select.atoms, fromAtoms, sourceAtoms, List.append_nil, List.mem_append, or_imp,
    forall_and]
  exact ⟨⟨⟨⟨⟨⟨list (f := id) hColumns, list hJoins⟩, optional hCondition⟩, list (f := id) hGroup⟩,
    list hOrder⟩, optional hLimit⟩, optional hOffset⟩

/-- A statement that fetches rows calls no functions. -/
theorem plain_buildSelect (h : c.buildSelect root f = .ok select) :
    ∀ a ∈ select.atoms, a.Plain := by
  obtain ⟨s, condition, orderBy, joins, -, hc, ho, hj, rfl⟩ := buildSelect_eq_ok.1 h
  refine forall_atoms_select (fun e he => ?_) (plain_joinClauses hj) (plain_condition hc) ?_
    (fun o ho' => ?_) (plain_boundExpr _) (plain_boundExpr _)
  · obtain he | rfl := Entity.mem_selectionColumns he
    · exact he.plain
    · exact plain_all _
  · split_ifs
    · exact plain_idColumns root
    · simp
  · obtain ⟨key, hkey⟩ := mem_orderItems ho ho'
    obtain ⟨q, hq, -⟩ := reads_orderExpr hkey
    exact hq.plain

/-- A statement that counts rows calls no other function than that. -/
theorem atoms_buildCount (h : c.buildCount root f = .ok select) :
    ∀ a ∈ select.atoms, a.Plain ∨ a = .function "count" := by
  have count : ∀ e ∈ [countExpr], ∀ a ∈ e.atoms, a.Plain ∨ a = .function "count" := by
    simp [countExpr, Expr.atoms]
  obtain ⟨s, condition, -, hc, ⟨-, rfl⟩ | ⟨joins, hj, -, rfl⟩⟩ := buildCount_cases h
  · refine forall_atoms_select count (by simp) ?_ (by simp) (by simp) (by simp) (by simp)
    exact fun e he a ha => .inl (plain_condition hc e he a ha)
  · have inner : ∀ a ∈ (groupedSelect root joins condition).atoms, a.Plain := by
      refine forall_atoms_select ?_ (plain_joinClauses hj) (plain_condition hc)
        (plain_idColumns root) (by simp) (by simp) (by simp)
      split_ifs
      · exact List.forall_mem_singleton.2 (plain_all _)
      · exact plain_idColumns root
    intro a ha
    have ha : a ∈ countExpr.atoms ∨ a ∈ (groupedSelect root joins condition).atoms := by
      simpa [Select.atoms, fromAtoms, sourceAtoms] using ha
    exact ha.elim (count countExpr (by simp) a) fun ha => .inl (inner a ha)

/-- A statement that fetches rows calls known functions only. -/
theorem known_buildSelect (h : c.buildSelect root f = .ok select) :
    ∀ a ∈ select.atoms, a.Known := fun a ha => (plain_buildSelect h a ha).known

/-- A statement that counts rows calls known functions only. -/
theorem known_buildCount (h : c.buildCount root f = .ok select) :
    ∀ a ∈ select.atoms, a.Known := by
  intro a ha
  obtain plain | rfl := atoms_buildCount h a ha
  · exact plain.known
  · exact (by decide +kernel : "count" ∈ vocabulary)

end Compiler

end FilterSql
