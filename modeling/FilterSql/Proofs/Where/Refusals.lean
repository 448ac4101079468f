import FilterSql.Proofs.Where.Meaning

/-!
# What compiling conditions refuses

With the usual operators, and if every key can be looked up, compiling a tree of conditions fails
only for what the tree itself says (`View.refused_compile`): it names an operator that there is not,
compares operands in a way that makes no sense, or gives a range that is no list (`Refused`).
-/

namespace FilterSql

open Sql

namespace Json

/-- Somewhere in the tree an object has the member. -/
inductive HasMember : Json → String → Json → Prop
  | here {ms : Members} {name : String} {value : Json} (h : (name, value) ∈ ms) :
    HasMember (.obj ms) name value
  | member {ms : Members} {m : String × Json} {name : String} {value : Json} (hm : m ∈ ms)
    (h : HasMember m.2 name value) : HasMember (.obj ms) name value
  | element {xs : List Json} {x : Json} {name : String} {value : Json} (hx : x ∈ xs)
    (h : HasMember x name value) : HasMember (.arr xs) name value

/-- The members that are somewhere in the first are somewhere in the second. -/
def Within (j tree : Json) : Prop :=
  ∀ name value, j.HasMember name value → tree.HasMember name value

variable {tree value : Json} {name : String}

theorem HasMember.within (h : tree.HasMember name value) : value.Within tree := by
  intro n v hv
  induction h with
  | here h => exact .member h hv
  | member hm _ ih => exact .member hm (ih hv)
  | element hx _ ih => exact .element hx (ih hv)

variable {rest : Members} {x : Json} {xs : List Json}

theorem Within.head (h : (Json.obj ((name, value) :: rest)).Within tree) :
    tree.HasMember name value := h name value (.here List.mem_cons_self)

theorem Within.tail (h : (Json.obj ((name, value) :: rest)).Within tree) :
    (Json.obj rest).Within tree := by
  intro n v hv
  refine h n v ?_
  cases hv with
  | here h => exact .here (List.mem_cons_of_mem _ h)
  | member hm h => exact .member (List.mem_cons_of_mem _ hm) h

theorem Within.element (h : (Json.arr (x :: xs)).Within tree) : x.Within tree :=
  fun n v hv => h n v (.element List.mem_cons_self hv)

theorem Within.elements (h : (Json.arr (x :: xs)).Within tree) : (Json.arr xs).Within tree := by
  intro n v hv
  refine h n v ?_
  cases hv with
  | element hx h => exact .element (List.mem_cons_of_mem _ hx) h

end Json

/-- What is wrong with a tree of conditions by itself. -/
inductive Refused (tree : Json) : CompileError → Prop
  /-- There is no operator of the name. -/
  | unsupported {name : String} {value : Json} (h : tree.HasMember name value)
    (unknown : Operators.standard.find? name = none) : Refused tree (.unsupportedOperator name)
  /-- The member is no comparison of two operands. -/
  | expression {value : Json} {reason : String} (h : tree.HasMember exprDirective value) :
    Refused tree (.invalidExpression reason)
  /-- The range has no list of bounds. -/
  | range {value : Json} (h : tree.HasMember "between" value) (hv : value.arr? = none) :
    Refused tree (.invalidOperand "between" "expected an array of two bounds")

/-- What a group makes of its value fails for reasons that satisfy `P` only. -/
def GroupValue.FailsOnly (P : CompileError → Prop) : GroupValue → Prop
  | mapping clause arms => FilterSql.FailsOnly P (clause ()) ∧ FilterSql.FailsOnly P (arms ())
  | list arms => FilterSql.FailsOnly P (arms ())
  | other => True

namespace GroupValue.FailsOnly

variable {P : CompileError → Prop} {value : GroupValue}

theorem all (h : value.FailsOnly P) : FilterSql.FailsOnly P value.all := by
  cases value with
  | mapping clause arms => exact h.1.map
  | list arms => exact FilterSql.FailsOnly.map h
  | other => exact .ok none

theorem any (h : value.FailsOnly P) : FilterSql.FailsOnly P value.any := by
  cases value with
  | mapping clause arms => exact h.2.map
  | list arms => exact FilterSql.FailsOnly.map h
  | other => exact .ok none

end GroupValue.FailsOnly

/-- A column can be compared with anything. -/
theorem Condition.exists_comparison (name : String) (column : Expr) (value : Json)
    (operand : Option Expr) (op : Comparison) :
    ∃ e, (Condition.mk name (some column) value operand).comparison op = .ok e := by
  cases operand with
  | some operand => exact ⟨_, rfl⟩
  | none => cases value <;> cases op <;> exact ⟨_, rfl⟩

namespace View

/-- The view has the usual operators, and every key can be looked up in it. -/
structure Ready (w : View) : Prop where
  operators : w.operators = .standard
  resolves : ∀ key, ∃ found, w.resolveKey key = .ok found

variable {w : View} {tree value : Json} {name : String} {op : Operator}

theorem refused_get (h : tree.HasMember name value) :
    FailsOnly (Refused tree) (Operators.standard.get name) := by
  unfold Operators.get
  cases hfind : Operators.standard.find? name with
  | some p => exact .ok p.2
  | none => exact .error (.unsupported h hfind)

/-- An operator on a column fails for its value as a group, for what negation is about, or because
it is a range without a list. -/
theorem refused_apply_entry (hop : operatorNamed name = some op) (h : tree.HasMember name value)
    {column : Expr} {group : GroupValue} (hg : group.FailsOnly (Refused tree))
    {negated : Unit → Except CompileError (Option Expr)}
    (hn : FailsOnly (Refused tree) (negated ())) :
    FailsOnly (Refused tree) (apply op ⟨name, some column, value, none⟩ group negated) := by
  cases op with
  | compare op =>
    obtain ⟨e, he⟩ := Condition.exists_comparison name column value none op
    rw [apply, he]
    exact .ok (some e)
  | oneOf negated => exact .ok _
  | between =>
    obtain rfl : name = "between" := by
      unfold operatorNamed at hop
      split at hop <;> first | rfl | cases hop
    cases value with
    | arr xs => exact .ok _
    | null | bool | num | str | obj => exact .error (.range h rfl)
  | and => exact hg.all
  | or => exact hg.any
  | not => exact hn.bind fun _ _ => .ok _

/-- The operators of groups look at nothing but the group. -/
theorem refused_apply_group (hop : operatorNamed name = some op) (hname : isGroup name = true)
    {group : GroupValue} (hg : group.FailsOnly (Refused tree)) :
    FailsOnly (Refused tree) (apply op ⟨name, none, value, none⟩ group fun _ => group.all) := by
  have named : ((name = "and" ∨ name = "or") ∨ name = "not") ∨ name = "!" := by
    simpa [isGroup] using hname
  obtain ((rfl | rfl) | rfl) | rfl := named <;> cases hop
  · exact hg.all
  · exact hg.any
  · exact hg.all.bind fun _ _ => .ok _
  · exact hg.all.bind fun _ _ => .ok _

theorem refused_exprOperands (h : tree.HasMember exprDirective value) :
    FailsOnly (Refused tree) (exprOperands value) := by
  unfold exprOperands
  split
  · exact .ok _
  · exact .error (.expression h)
  · exact .error (.expression h)
  · exact .error (.expression h)

theorem exists_operand (hw : w.Ready) (j : Json) : ∃ found, w.operand j = .ok found := by
  unfold operand
  split
  · exact hw.resolves _
  · exact ⟨_, rfl⟩

/-- Two operands can be compared, and nothing else can be done with them. -/
theorem refused_comparison (hw : w.Ready) (h : tree.HasMember exprDirective value) :
    FailsOnly (Refused tree) (w.comparison value) := by
  refine (refused_exprOperands h).bind ?_
  rintro ⟨name, left, right⟩ hoperands
  obtain ⟨leftExpr, hleft⟩ := exists_operand hw left
  obtain ⟨rightExpr, hright⟩ := exists_operand hw right
  dsimp only
  rw [hleft, hright]
  cases leftExpr with
  | none => exact .ok none
  | some l =>
    cases rightExpr with
    | none => exact .ok none
    | some r =>
      show FailsOnly (Refused tree) (w.operators.get name >>= fun op =>
        apply op ⟨name, some l, right, some r⟩ .other fun _ => .ok none)
      rw [hw.operators]
      have named : ∃ v, value.HasMember name v := by
        unfold exprOperands at hoperands
        split at hoperands <;> cases hoperands
        exact ⟨_, .here List.mem_cons_self⟩
      obtain ⟨v, hv⟩ := named
      refine (refused_get (h.within name v hv)).bind fun op _ => ?_
      cases op with
      | compare op =>
        obtain ⟨e, he⟩ := Condition.exists_comparison name l right (some r) op
        rw [apply, he]
        exact .ok (some e)
      | oneOf | between | and | or | not => exact .error (.expression h)

/-- A member fails for its value as a group, or as operators on a column. -/
theorem refused_member (hw : w.Ready) (h : tree.HasMember name value) {group : GroupValue}
    {field : Expr → Except CompileError (List Expr)} (hg : group.FailsOnly (Refused tree))
    (hf : ∀ column, FailsOnly (Refused tree) (field column)) :
    FailsOnly (Refused tree) (w.member name value group field) := by
  unfold member
  split_ifs with hblank hname hexpr
  · exact .ok []
  · rw [hw.operators]
    refine (refused_get h).bind fun op hop => ?_
    exact (refused_apply_group (operatorNamed_of_get hop) hname hg).bind fun _ _ => .ok _
  · subst hexpr
    exact (refused_comparison hw h).map
  · obtain ⟨found, hfound⟩ := hw.resolves name
    rw [hfound]
    cases found with
    | none => exact .ok []
    | some column => exact hf column

/-- Equality with a value does not fail. -/
theorem refused_equality (hw : w.Ready) (column : Expr) (value : Json) (group : GroupValue) :
    FailsOnly (Refused tree) (w.equality column value group) := by
  unfold equality
  have equals : w.operators.get "=" = .ok (.compare .eq) := by
    rw [hw.operators]
    rfl
  obtain ⟨e, he⟩ := Condition.exists_comparison "=" column value none .eq
  rw [equals]
  have compared : FailsOnly (Refused tree) (apply (.compare .eq) ⟨"=", some column, value, none⟩
      group fun _ => .error .circularEquality) := by
    rw [apply, he]
    exact .ok (some e)
  exact compared.bind fun _ _ => .ok _

-- The recursion is that of `View.members` and of the functions that are defined with it.
mutual

theorem refused_members (hw : w.Ready) : ∀ ms : Members, (Json.obj ms).Within tree →
    FailsOnly (Refused tree) (w.members ms)
  | [], _ => .ok []
  | (name, value) :: rest, h => by
    have here := refused_member hw h.head (refused_groupValue hw value h.head.within)
      (refused_field hw value h.head.within)
    exact here.bind fun _ _ => (refused_members hw rest h.tail).bind fun _ _ => .ok _

theorem refused_memberArms (hw : w.Ready) : ∀ ms : Members, (Json.obj ms).Within tree →
    FailsOnly (Refused tree) (w.memberArms ms)
  | [], _ => .ok []
  | (name, value) :: rest, h => by
    have here := refused_member hw h.head (refused_groupValue hw value h.head.within)
      (refused_field hw value h.head.within)
    exact here.bind fun _ _ => (refused_memberArms hw rest h.tail).bind fun _ _ => .ok _

theorem refused_elementArms (hw : w.Ready) : ∀ xs : List Json, (Json.arr xs).Within tree →
    FailsOnly (Refused tree) (w.elementArms xs)
  | [], _ => .ok []
  | x :: xs, h => (refused_element hw x h.element).bind fun _ _ =>
    (refused_elementArms hw xs h.elements).bind fun _ _ => .ok _

theorem refused_element (hw : w.Ready) : ∀ j : Json, j.Within tree →
    FailsOnly (Refused tree) (w.element j)
  | .obj ms, h => refused_members hw ms h
  | .null, _ | .bool _, _ | .num _, _ | .str _, _ | .arr _, _ => .ok []

theorem refused_groupValue (hw : w.Ready) : ∀ j : Json, j.Within tree →
    (w.groupValue j).FailsOnly (Refused tree)
  | .obj ms, h => ⟨refused_members hw ms h, refused_memberArms hw ms h⟩
  | .arr xs, h => refused_elementArms hw xs h
  | .null, _ | .bool _, _ | .num _, _ | .str _, _ => trivial

theorem refused_field (hw : w.Ready) : ∀ j : Json, j.Within tree →
    ∀ column, FailsOnly (Refused tree) (w.field column j)
  | .obj ms, h, column => refused_entries hw ms h column
  | .arr _, _, column | .null, _, column | .bool _, _, column | .num _, _, column
  | .str _, _, column => refused_equality hw column _ _

theorem refused_entries (hw : w.Ready) : ∀ ms : Members, (Json.obj ms).Within tree →
    ∀ column, FailsOnly (Refused tree) (w.entries column ms)
  | [], _, _ => .ok []
  | (name, value) :: rest, h, column => by
    rw [entries, hw.operators]
    refine (refused_get h.head).bind fun op hop => ?_
    have negated : FailsOnly (Refused tree) (if isBlankMember value then .ok none
        else (w.field column value).map Expr.conjunction) := by
      split_ifs
      · exact .ok none
      · exact (refused_field hw value h.head.within column).map
    have here : FailsOnly (Refused tree) (apply op ⟨name, some column, value, none⟩
        (w.groupValue value) fun _ => if isBlankMember value then .ok none
          else (w.field column value).map Expr.conjunction) :=
      refused_apply_entry (operatorNamed_of_get hop) h.head
        (refused_groupValue hw value h.head.within) negated
    exact here.bind fun _ _ => (refused_entries hw rest h.tail column).bind fun _ _ => .ok _

end

/-- Compiling a tree fails for what the tree says only. -/
theorem refused_compile (hw : w.Ready) (clause : Option Members) :
    FailsOnly (Refused (.obj (clause.getD []))) (w.compile clause) := by
  cases clause with
  | none => exact .ok none
  | some ms => exact (refused_members hw ms fun _ _ h => h).map

end View

end FilterSql
