import FilterSql.Proofs.Compiler.Parts
import FilterSql.Proofs.Double.Equality

/-!
# Selected properties

A statement selects the columns of the properties that a projection chooses, or all columns if it
chooses none.  Flags never choose a property that they turn off (`Excludes`), and they choose none
just in case they turn all off (`flagged_eq_nil_iff`).  So the columns of a property that is turned
off are withheld as long as another property is not (`Compiler.excluded_withheld`).
-/

namespace FilterSql

open Sql

/-! ## Flags -/

/-- Null, false, zero, NaN and the empty text stand for no. -/
inductive Json.Falsy : Json → Prop
  | null : Falsy .null
  | no : Falsy (.bool false)
  | zero : Falsy (.num (.int 0))
  | float {x : Double} (h : x.IsZero ∨ x.isNaN = true) : Falsy (.num (.float x))
  | empty : Falsy (.str "")

theorem Double.numEq_zero_iff {x : Double} : x.numEq (.zero false) = true ↔ x.IsZero := by
  constructor
  · intro h
    obtain rfl | ⟨hx, -⟩ := eq_or_isZero_of_numEq h
    · exact ⟨false, rfl⟩
    · exact hx
  · rintro ⟨_ | _, rfl⟩ <;> decide

theorem isTruthy_eq_false_iff {j : Json} : isTruthy j = false ↔ j.Falsy := by
  constructor
  · intro h
    cases j with
    | null => exact .null
    | bool b =>
      obtain rfl : b = false := h
      exact .no
    | num n =>
      cases n with
      | int n =>
        obtain rfl : n = 0 := by simpa [isTruthy] using h
        exact .zero
      | float x =>
        refine .float ?_
        rw [← Double.numEq_zero_iff]
        cases hzero : x.numEq (.zero false) with
        | true => exact .inl rfl
        | false => exact .inr (by simpa [isTruthy, hzero] using h)
    | str s =>
      obtain rfl : s = "" := by simpa [isTruthy] using h
      exact .empty
    | arr | obj => cases h
  · intro h
    cases h with
    | null | no | zero | empty => rfl
    | float h =>
      obtain zero | nan := h
      · simp [isTruthy, Double.numEq_zero_iff.2 zero]
      · simp [isTruthy, nan]

/-- The flags turn the name off. -/
def Excludes (flags : Members) (name : String) : Prop := ∃ j, flags.lookup name = some j ∧ j.Falsy

theorem excludes_iff {flags : Members} {name : String} :
    Excludes flags name ↔ (flags.lookup name).all isTruthy = false := by
  simp only [Excludes, ← isTruthy_eq_false_iff]
  cases flags.lookup name <;> simp

section

variable {flags : Members} {names : List String} {name : String}

/-- Flags choose among the names, and none that they turn off. -/
theorem mem_of_mem_flagged (h : name ∈ flagged flags names) :
    name ∈ names ∧ ¬ Excludes flags name := by
  rw [excludes_iff, Bool.not_eq_false]
  unfold flagged at h
  split at h
  · exact List.mem_filter.1 h
  · obtain ⟨hname, on⟩ := List.mem_filter.1 h
    refine ⟨hname, ?_⟩
    cases hj : flags.lookup name with
    | none => rfl
    | some j => simpa [hj] using on

/-- Flags choose none of the names just in case they turn all of them off. -/
theorem flagged_eq_nil_iff : flagged flags names = [] ↔ ∀ n ∈ names, Excludes flags n := by
  constructor
  · intro h n hn
    unfold flagged at h
    split at h
    · rw [excludes_iff, ← Bool.not_eq_true]
      exact List.filter_eq_nil_iff.1 h n hn
    · rename_i chosen
      exact absurd h chosen
  · intro h
    refine List.eq_nil_iff_forall_not_mem.2 fun n hn => ?_
    obtain ⟨mem, not⟩ := mem_of_mem_flagged hn
    exact not (h n mem)

end

/-! ## Selections -/

namespace Entity

variable {e : Entity} {fields : Option FieldsSpec} {names : List String} {name : String}

/-- A declared name stands for the column of a property of that name. -/
theorem exists_property (h : e.hasProperty name = true) :
    ∃ p ∈ e.properties, p.name = name ∧ e.column name = p.column := by
  obtain ⟨p, hp⟩ := Option.isSome_iff_exists.1 h
  refine ⟨p, List.mem_of_find?_eq_some hp, by simpa using List.find?_some hp, ?_⟩
  rw [column, hp]

/-- Only declared properties are selected. -/
theorem hasProperty_of_mem_selection? (h : e.selection? fields = some names) (hname : name ∈ names) :
    e.hasProperty name = true := by
  have declared (hmem : name ∈ e.properties.map (·.name)) : e.hasProperty name = true := by
    obtain ⟨p, hp, rfl⟩ := List.mem_map.1 hmem
    exact hasProperty_of_mem hp
  unfold selection? at h
  dsimp only at h
  split_ifs at h
  split at h <;> obtain rfl := Option.some.inj h
  · exact declared hname
  · exact declared hname
  · exact (List.mem_filter.1 hname).2
  · exact declared (mem_of_mem_flagged hname).1

theorem selection?_flags {p : Property} (hp : p ∈ e.properties) (flags : Members) :
    e.selection? (some (.flags flags)) = some (flagged flags (e.properties.map (·.name))) := by
  have declared : e.properties ≠ [] := List.ne_nil_of_mem hp
  simp [selection?, declared]

/-- Selected properties are read from the table in turn. -/
theorem selectionColumns_of_ne_nil (h : e.selection? fields = some names) (hne : names ≠ [])
    (hasJoins : Bool) : e.selectionColumns fields hasJoins =
      names.map (e.columnExpr (some e.tableName)) := by
  obtain ⟨name, more, rfl⟩ := List.exists_cons_of_ne_nil hne
  rw [selectionColumns, h]
  rfl

end Entity

/-! ## Statements -/

namespace Compiler

variable {c : Compiler} {entity : String} {root : Entity} {f : Filter} {flags : Members}
  {p : Property} {st : Statement}

/-- A property that flags turn off is not selected, unless they turn all properties off: then all
columns are.  Its column is selected only if it is that of another property too. -/
theorem excluded_withheld (hroot : c.registry.entity? entity = some root)
    (h : c.select entity f = .ok st) (hfields : f.fields = some (.flags flags))
    (hp : p ∈ root.properties) (hoff : Excludes flags p.name) :
    ∃ built, c.buildSelect root f = .ok built ∧ st = built.render c.dialect ∧
      ((∃ q ∈ root.properties, ¬ Excludes flags q.name) →
        built.columns ≠ [] ∧ (∀ t, .all t ∉ built.columns) ∧
        ∀ t, .column ⟨t, p.column⟩ ∈ built.columns →
          ∃ q ∈ root.properties, q.name ≠ p.name ∧ q.column = p.column) ∧
      ((∀ q ∈ root.properties, Excludes flags q.name) →
        built.columns = if built.joins = [] then [] else [.all (some root.tableName)]) := by
  rw [select_eq hroot] at h
  obtain ⟨built, hbuilt, rfl⟩ := map_eq_ok.1 h
  obtain ⟨s, condition, orderBy, joins, -, -, -, hj, rfl⟩ := buildSelect_eq_ok.1 hbuilt
  have selection := Entity.selection?_flags hp flags
  rw [← hfields] at selection
  refine ⟨_, hbuilt, rfl, ?_, ?_⟩
  · rintro ⟨q, hq, on⟩
    have chosen : flagged flags (root.properties.map (·.name)) ≠ [] := fun none =>
      on (flagged_eq_nil_iff.1 none q.name (List.mem_map_of_mem hq))
    dsimp only
    rw [Entity.selectionColumns_of_ne_nil selection chosen]
    refine ⟨by simpa using chosen, fun t ht => ?_, fun t ht => ?_⟩
    · obtain ⟨name, -, hall⟩ := List.mem_map.1 ht
      cases hall
    · obtain ⟨name, hname, hcolumn⟩ := List.mem_map.1 ht
      obtain ⟨-, hon⟩ := mem_of_mem_flagged hname
      obtain ⟨q, hq, rfl, column⟩ :=
        Entity.exists_property (Entity.hasProperty_of_mem_selection? selection hname)
      obtain ⟨-, same⟩ := Column.mk.inj (Expr.column.inj hcolumn)
      refine ⟨q, hq, fun hsame => hon (hsame ▸ hoff), column.symm.trans same⟩
  · intro off
    have none : flagged flags (root.properties.map (·.name)) = [] := by
      refine flagged_eq_nil_iff.2 fun n hn => ?_
      obtain ⟨q, hq, rfl⟩ := List.mem_map.1 hn
      exact off q hq
    rw [none] at selection
    dsimp only
    rw [Entity.selectionColumns, selection]
    simp [Session.hasJoins, joins_eq_nil_of_joinClauses hj]

/-- Members, whose secrets are kept in a column of another name. -/
def member : Entity :=
  { name := "Member",
    properties := [{ name := "id", isId := true }, { name := "email" },
      { name := "secret", storage := some "secret_hash" }] }

/-- A compiler that knows of members only. -/
def directory : Compiler := { registry := ⟨.ofList [member]⟩ }

/-- A filter that asks for properties by flags only. -/
def flagFilter (flags : Members) : Filter := { fields := some (.flags flags) }

/-- Flags that turn secrets off by a negative zero. -/
def secretOff : Members := [("secret", .num (.float (.zero true)))]

theorem excluded_withheld_directory : ∃ st p,
    directory.registry.entity? "Member" = some member ∧
    directory.select "Member" (flagFilter secretOff) = .ok st ∧
    p ∈ member.properties ∧ p.column = "secret_hash" ∧ Excludes secretOff p.name ∧
    (∃ q ∈ member.properties, ¬ Excludes secretOff q.name) ∧
    ∃ built, directory.buildSelect member (flagFilter secretOff) = .ok built ∧
      st = built.render directory.dialect ∧
      ((∃ q ∈ member.properties, ¬ Excludes secretOff q.name) →
        built.columns ≠ [] ∧ (∀ t, .all t ∉ built.columns) ∧
        ∀ t, .column ⟨t, p.column⟩ ∈ built.columns →
          ∃ q ∈ member.properties, q.name ≠ p.name ∧ q.column = p.column) ∧
      ((∀ q ∈ member.properties, Excludes secretOff q.name) →
        built.columns = if built.joins = [] then [] else [.all (some member.tableName)]) := by
  have registered : directory.registry.entity? "Member" = some member := by decide +kernel
  have text : (directory.select "Member" (flagFilter secretOff)).map (·.text) =
      .ok ("select \"member\".\"id\", \"member\".\"email\" from \"member\" " ++
        "order by \"member\".\"id\" asc") := by
    decide +kernel
  obtain ⟨st, hst, -⟩ := map_eq_ok.1 text
  have declared : ({ name := "secret", storage := some "secret_hash" } : Property) ∈
      member.properties := by decide
  have off : Excludes secretOff "secret" := ⟨_, rfl, .float (.inl ⟨true, rfl⟩)⟩
  have on : ∃ q ∈ member.properties, ¬ Excludes secretOff q.name := by
    simp only [excludes_iff]
    decide +kernel
  exact ⟨st, _, registered, hst, declared, rfl, off, on,
    excluded_withheld registered hst rfl declared off⟩

/-- Flags that turn all properties of members off. -/
def allOff : Members := [("id", .bool false), ("email", .null), ("secret", .str "")]

/-- With all properties turned off, all columns are selected, that of the secrets too. -/
theorem all_excluded_directory : ∃ st built,
    directory.registry.entity? "Member" = some member ∧
    (∀ p ∈ member.properties, Excludes allOff p.name) ∧
    (member.properties.map (·.name)).Nodup ∧ (member.properties.map Property.column).Nodup ∧
    directory.select "Member" (flagFilter allOff) = .ok st ∧
    directory.buildSelect member (flagFilter allOff) = .ok built ∧
    st = built.render directory.dialect ∧ built.columns = [] ∧
    st.text = "select * from \"member\" order by \"member\".\"id\" asc" := by
  have registered : directory.registry.entity? "Member" = some member := by decide +kernel
  have off : ∀ p ∈ member.properties, Excludes allOff p.name := by
    simp only [excludes_iff]
    decide +kernel
  have parts : (directory.buildSelect member (flagFilter allOff)).map
        (fun built => (built.columns.isEmpty, (built.render directory.dialect).text)) =
      .ok (true, "select * from \"member\" order by \"member\".\"id\" asc") := by
    decide +kernel
  obtain ⟨built, hbuilt, hparts⟩ := map_eq_ok.1 parts
  obtain ⟨hcolumns, htext⟩ := Prod.mk.inj hparts
  have hst := select_eq registered (flagFilter allOff)
  rw [hbuilt] at hst
  exact ⟨_, built, registered, off, by decide, by decide, hst, hbuilt, rfl,
    List.isEmpty_iff.1 hcolumns, htext⟩

end Compiler

end FilterSql
