import FilterSql.Proofs.Outcome
import FilterSql.Proofs.Sql.Truth
import FilterSql.Where.Compile
import Mathlib.Tactic.Common

/-!
# The meaning of conditions

A tree of conditions says something about a row once its keys have columns and its comparisons have
truths (`Sense`).  `Sense.clause` reads the tree: members are taken together, groups combine what
their parts say, operators on a key compare its column, and a part that says nothing counts neither
for nor against.  The expression that a tree compiles to has the truth that the tree means
(`compile_means`).

Where the expression has all conditions of a value spliced into the conditions around it, the tree
has one truth for the value.  The two agree as conjunctions, so statements about lists of conditions
are about `Truth.all?` of them.
-/

namespace FilterSql

open Sql

/-! ## Vocabulary of the usual operators -/

/-- The operators that conditions may name. -/
def operatorNamed (name : String) : Option Operator :=
  match name with
  | "=" | "eq" => some (.compare .eq)
  | "!=" | "neq" => some (.compare .notEq)
  | "<" | "lt" => some (.compare .lt)
  | "<=" | "lte" => some (.compare .ltEq)
  | ">" | "gt" => some (.compare .gt)
  | ">=" | "gte" => some (.compare .gtEq)
  | "like" => some (.compare .like)
  | "nlike" => some (.compare .notLike)
  | "ilike" => some (.compare .ilike)
  | "nilike" => some (.compare .notIlike)
  | "in" | "inq" => some (.oneOf false)
  | "nin" => some (.oneOf true)
  | "between" => some .between
  | "not" | "!" => some .not
  | "and" => some .and
  | "or" => some .or
  | _ => none

/-- The bounds of a range; one that is left out is null. -/
def rangeBounds : List Json → Expr × Expr
  | [] => (.value .null, .value .null)
  | [low] => (bound low, .value .null)
  | low :: high :: _ => (bound low, bound high)

/-- The comparison that an operator makes of a column and a value.  Equality with null asks whether
the column is null. -/
def Operator.comparison? (op : Operator) (column : Expr) (value : Json) : Option Expr :=
  match op, value with
  | .compare .eq, .null => some (.isNull column false)
  | .compare .notEq, .null => some (.isNull column true)
  | .compare op, value => some (.compare column op (bound value))
  | .oneOf negated, value => some (.oneOf column (choices value) negated)
  | .between, .arr xs => some (.between column (rangeBounds xs).1 (rangeBounds xs).2)
  | _, _ => none

theorem operatorNamed_of_get {name : String} {op : Operator}
    (h : Operators.standard.get name = .ok op) : operatorNamed name = some op := by
  have table : Operators.standard.items.all fun p => operatorNamed p.1 == some p.2 := by
    decide +kernel
  unfold Operators.get at h
  split at h
  · rename_i n op' hfind
    obtain rfl := Except.ok.inj h
    have listed := List.all_eq_true.1 table _ (List.mem_of_find?_eq_some hfind)
    have named : n = name := by simpa using List.find?_some hfind
    exact named ▸ by simpa using listed
  · cases h

/-! ## What trees say -/

/-- What the keys and the comparisons of a tree are taken for. -/
structure Sense where
  /-- The column of a key; a key without one stands for nothing. -/
  column : String → Option Expr
  truth : Expr → Truth

namespace Sense

/-- An operand of a comparison: a key after `$`, or a value. -/
def operand (m : Sense) (j : Json) : Option Expr :=
  match projection? j with
  | some key => m.column key
  | none => some (bound j)

/-- What the comparison of two operands says; nothing if one of them stands for nothing. -/
def comparison (m : Sense) (value : Json) : Option Truth :=
  match exprOperands value with
  | .ok (name, left, right) =>
    match m.operand left, m.operand right with
    | some l, some r =>
      match operatorNamed name with
      | some (.compare op) => some (m.truth (.compare l op r))
      | _ => none
    | _, _ => none
  | .error _ => none

/-- What a group says whose parts say `parts`. -/
def group (name : String) (parts : List Truth) : Option Truth :=
  match name with
  | "and" => Truth.all? parts
  | "or" => Truth.any? parts
  | _ => (Truth.all? parts).map Truth.not

/-- What a member says: `parts` are what its value says as a group, and `field` is what its value
says about a column. -/
def member (m : Sense) (name : String) (value : Json) (parts : List Truth)
    (field : Expr → Option Truth) : Option Truth :=
  if isBlankMember value || name == joinDirective then none
  else if isGroup name then group name parts
  else if name = exprDirective then m.comparison value
  else (m.column name).bind field

/-- What an operator says about a column: `parts` are what its operand says as a group, and `field`
is what the operand would say about the column by itself. -/
def entry (m : Sense) (column : Expr) (name : String) (value : Json) (parts : List Truth)
    (field : Option Truth) : Option Truth :=
  match operatorNamed name with
  | some .not => field.map Truth.not
  | some .and => Truth.all? parts
  | some .or => Truth.any? parts
  | some op => (op.comparison? column value).map m.truth
  | none => none

mutual

/-- What members say, leaving out those that say nothing. -/
def clause (m : Sense) : Members → List Truth
  | [] => []
  | (name, value) :: rest =>
    (m.member name value (m.parts value) fun column => m.field column value).toList ++ m.clause rest

/-- What the parts of a group say: the members of a mapping, the objects of a list. -/
def parts (m : Sense) : Json → List Truth
  | .obj ms => m.clause ms
  | .arr xs => m.elements xs
  | _ => []

/-- What the objects of a list say, leaving out those that say nothing. -/
def elements (m : Sense) : List Json → List Truth
  | [] => []
  | x :: xs => (m.element x).toList ++ m.elements xs

/-- What an element of a list says; only an object says anything. -/
def element (m : Sense) : Json → Option Truth
  | .obj ms => Truth.all? (m.clause ms)
  | _ => none

/-- What a value says about a column: its operators together, or equality. -/
def field (m : Sense) (column : Expr) : Json → Option Truth
  | .obj ms => Truth.all? (m.entries column ms)
  | value => ((Operator.compare .eq).comparison? column value).map m.truth

/-- What operators say about a column, leaving out those that say nothing. -/
def entries (m : Sense) (column : Expr) : Members → List Truth
  | [] => []
  | (name, value) :: rest =>
    (m.entry column name value (m.parts value)
      (if isBlankMember value then none else m.field column value)).toList ++ m.entries column rest

end

/-- What a tree means; nothing if no member says anything. -/
def meaning (m : Sense) (clause : Option Members) : Option Truth :=
  clause.bind fun ms => Truth.all? (m.clause ms)

end Sense

/-! ## What compiled conditions say -/

/-- What a list of conditions says. -/
abbrev Sql.Expr.said (τ : Expr → Truth) (es : List Expr) : Option Truth :=
  Truth.all? (es.map (Expr.truth τ))

theorem Sql.Expr.said_toList {τ : Expr → Truth} (e : Option Expr) :
    said τ e.toList = e.map (truth τ) := by
  cases e <;> simp [said, Truth.all?, Truth.all]

/-- The conditions that a group makes of its value say what the parts of the value say. -/
def GroupValue.Means (τ : Expr → Truth) (parts : List Truth) : GroupValue → Prop
  | mapping clause arms => (∀ es, clause () = .ok es → Expr.said τ es = Truth.all? parts) ∧
      ∀ es, arms () = .ok es → es.map (Expr.truth τ) = parts
  | list arms => ∀ es, arms () = .ok es → es.map (Expr.truth τ) = parts
  | other => parts = []

section

variable {τ : Expr → Truth} {parts : List Truth}

theorem GroupValue.truth_group_and (arms : List Expr) :
    (group .and arms).map (Expr.truth τ) = Truth.all? (arms.map (Expr.truth τ)) := by
  cases arms with
  | nil => rfl
  | cons e es => simp [group, Truth.all?, Function.comp_def]

theorem GroupValue.truth_group_or (arms : List Expr) :
    (group .or arms).map (Expr.truth τ) = Truth.any? (arms.map (Expr.truth τ)) := by
  cases arms with
  | nil => rfl
  | cons e es => simp [group, Truth.any?, Function.comp_def]

theorem GroupValue.Means.all {value : GroupValue} (hv : value.Means τ parts) {e : Option Expr}
    (h : value.all = .ok e) : e.map (Expr.truth τ) = Truth.all? parts := by
  cases value with
  | mapping clause arms =>
    obtain ⟨es, hes, rfl⟩ := map_eq_ok.1 h
    rw [Expr.truth_conjunction]
    exact hv.1 es hes
  | list arms =>
    obtain ⟨es, hes, rfl⟩ := map_eq_ok.1 h
    rw [truth_group_and, hv es hes]
  | other =>
    obtain rfl := Except.ok.inj h
    rw [show parts = [] from hv]
    rfl

theorem GroupValue.Means.any {value : GroupValue} (hv : value.Means τ parts) {e : Option Expr}
    (h : value.any = .ok e) : e.map (Expr.truth τ) = Truth.any? parts := by
  cases value with
  | mapping clause arms =>
    obtain ⟨es, hes, rfl⟩ := map_eq_ok.1 h
    rw [truth_group_or, hv.2 es hes]
  | list arms =>
    obtain ⟨es, hes, rfl⟩ := map_eq_ok.1 h
    rw [truth_group_or, hv es hes]
  | other =>
    obtain rfl := Except.ok.inj h
    rw [show parts = [] from hv]
    rfl

end

theorem Condition.comparison_eq_ok {name : String} {column : Expr} {value : Json}
    {op : Comparison} {e : Expr} (h : comparison ⟨name, some column, value, none⟩ op = .ok e) :
    (Operator.compare op).comparison? column value = some e := by
  obtain ⟨c, hc, h⟩ := bind_eq_ok.1 h
  obtain rfl := Except.ok.inj hc
  unfold Operator.comparison?
  cases value <;> cases op <;> exact congrArg some (pure_eq_ok.1 h)

theorem Condition.membership_eq_ok {name : String} {column : Expr} {value : Json}
    {negated : Bool} {e : Expr} (h : membership ⟨name, some column, value, none⟩ negated = .ok e) :
    (Operator.oneOf negated).comparison? column value = some e := by
  obtain ⟨-, -, h⟩ := bind_eq_ok.1 h
  obtain ⟨c, hc, h⟩ := bind_eq_ok.1 h
  obtain rfl := Except.ok.inj hc
  exact congrArg some (pure_eq_ok.1 h)

theorem Condition.range_eq_ok {name : String} {column : Expr} {value : Json} {e : Expr}
    (h : range ⟨name, some column, value, none⟩ = .ok e) :
    Operator.between.comparison? column value = some e := by
  obtain ⟨-, -, h⟩ := bind_eq_ok.1 h
  cases value with
  | arr xs =>
    obtain ⟨c, hc, h⟩ := bind_eq_ok.1 h
    obtain rfl := Except.ok.inj hc
    rw [← pure_eq_ok.1 h]
    match xs with
    | [] => rfl
    | [low] => rfl
    | low :: high :: rest => rfl
  | _ => cases h

namespace View

/-- What a tree is taken for under a view: its keys have the columns that they resolve to. -/
def sense (w : View) (τ : Expr → Truth) : Sense where
  column key := (w.resolveKey key).toOption.join
  truth := τ

variable {w : View} {τ : Expr → Truth}

theorem column_sense {key : String} {column : Option Expr} (h : w.resolveKey key = .ok column) :
    (w.sense τ).column key = column := by
  simp [sense, h, Except.toOption]

/-- What an operator compares is a comparison. -/
theorem truth_comparison {op : Operator} {column : Expr} {value : Json} {e : Expr}
    (h : op.comparison? column value = some e) : e.truth τ = τ e := by
  unfold Operator.comparison? at h
  split at h <;> cases h <;> rfl

/-- An operator on a column says what it compares, or what its operand says. -/
theorem truth_apply_entry {m : Sense} (hm : m.truth = τ) {name : String} {op : Operator}
    (hop : operatorNamed name = some op) {column : Expr} {value : Json} {group : GroupValue}
    {parts : List Truth} (hg : group.Means τ parts) {field : Option Truth}
    {inner : Unit → Except CompileError (Option Expr)}
    (hi : ∀ e, inner () = .ok e → e.map (Expr.truth τ) = field) {e : Option Expr}
    (h : apply op ⟨name, some column, value, none⟩ group inner = .ok e) :
    e.map (Expr.truth τ) = m.entry column name value parts field := by
  have compared {x : Expr} (hx : op.comparison? column value = some x) :
      (some x).map (Expr.truth τ) = (op.comparison? column value).map m.truth := by
    rw [hx, hm, Option.map_some, Option.map_some, truth_comparison hx]
  generalize hc : Condition.mk name (some column) value none = c at h
  unfold Sense.entry
  rw [hop]
  cases op with
  | compare op =>
    obtain ⟨x, hx, rfl⟩ := map_eq_ok.1 h
    exact compared (Condition.comparison_eq_ok (hc ▸ hx))
  | oneOf negated =>
    obtain ⟨x, hx, rfl⟩ := map_eq_ok.1 h
    exact compared (Condition.membership_eq_ok (hc ▸ hx))
  | between =>
    obtain ⟨x, hx, rfl⟩ := map_eq_ok.1 h
    exact compared (Condition.range_eq_ok (hc ▸ hx))
  | and =>
    obtain ⟨-, -, h⟩ := bind_eq_ok.1 h
    exact hg.all h
  | or =>
    obtain ⟨-, -, h⟩ := bind_eq_ok.1 h
    exact hg.any h
  | not =>
    obtain ⟨-, -, h⟩ := bind_eq_ok.1 h
    obtain ⟨x, hx, h⟩ := bind_eq_ok.1 h
    obtain rfl := pure_eq_ok.1 h
    rw [← hi x hx]
    cases x <;> simp

/-- A group says what its parts say. -/
theorem truth_apply_group {name : String} {op : Operator} (hop : operatorNamed name = some op)
    (hname : isGroup name = true) {value : Json} {group : GroupValue} {parts : List Truth}
    (hg : group.Means τ parts) {e : Option Expr}
    (h : apply op ⟨name, none, value, none⟩ group (fun _ => group.all) = .ok e) :
    e.map (Expr.truth τ) = Sense.group name parts := by
  simp only [isGroup, Bool.or_eq_true, beq_iff_eq] at hname
  obtain ((rfl | rfl) | rfl) | rfl := hname <;> cases hop
  · obtain ⟨-, -, h⟩ := bind_eq_ok.1 h
    exact hg.all h
  · obtain ⟨-, -, h⟩ := bind_eq_ok.1 h
    exact hg.any h
  all_goals
    obtain ⟨-, -, h⟩ := bind_eq_ok.1 h
    obtain ⟨x, hx, h⟩ := bind_eq_ok.1 h
    obtain rfl := pure_eq_ok.1 h
    rw [show Sense.group _ parts = (Truth.all? parts).map Truth.not from rfl, ← hg.all hx]
    cases x <;> simp

theorem operand_sense {j : Json} {e : Option Expr} (h : w.operand j = .ok e) :
    (w.sense τ).operand j = e := by
  unfold operand at h
  unfold Sense.operand
  cases hj : projection? j with
  | some key =>
    rw [hj] at h
    exact column_sense h
  | none =>
    rw [hj] at h
    exact Except.ok.inj h

/-- A comparison of two operands says how they compare. -/
theorem truth_comparison_operands (hw : w.operators = .standard) {value : Json} {e : Option Expr}
    (h : w.comparison value = .ok e) : e.map (Expr.truth τ) = (w.sense τ).comparison value := by
  obtain ⟨⟨name, left, right⟩, hvalue, h⟩ := bind_eq_ok.1 h
  obtain ⟨l, hl, h⟩ := bind_eq_ok.1 h
  obtain ⟨r, hr, h⟩ := bind_eq_ok.1 h
  unfold Sense.comparison
  rw [hvalue]
  simp only [operand_sense hl, operand_sense hr]
  cases l with
  | none =>
    obtain rfl := pure_eq_ok.1 h
    rfl
  | some l =>
    cases r with
    | none =>
      obtain rfl := pure_eq_ok.1 h
      rfl
    | some r =>
      obtain ⟨op, hop, h⟩ := bind_eq_ok.1 h
      rw [hw] at hop
      rw [operatorNamed_of_get hop]
      cases op with
      | compare op => cases h; rfl
      | _ => cases h

/-- A member says what its value says, as a group or about the column of its key. -/
theorem truth_member (hw : w.operators = .standard) {name : String} {value : Json}
    {group : GroupValue} {parts : List Truth} (hg : group.Means τ parts)
    {field : Expr → Except CompileError (List Expr)} {said : Expr → Option Truth}
    (hf : ∀ column es, field column = .ok es → Expr.said τ es = said column) {es : List Expr}
    (h : w.member name value group field = .ok es) :
    Expr.said τ es = (w.sense τ).member name value parts said := by
  unfold member at h
  unfold Sense.member
  split at h
  · rename_i hblank
    obtain rfl := Except.ok.inj h
    rw [if_pos hblank]
    rfl
  rename_i hblank
  rw [if_neg hblank]
  split at h
  · rename_i hname
    obtain ⟨op, hop, h⟩ := bind_eq_ok.1 h
    obtain ⟨x, hx, h⟩ := bind_eq_ok.1 h
    obtain rfl := pure_eq_ok.1 h
    rw [hw] at hop
    rw [if_pos hname, ← truth_apply_group (operatorNamed_of_get hop) hname hg hx,
      Expr.said_toList]
  rename_i hname
  rw [if_neg hname]
  split at h
  · rename_i hexpr
    obtain ⟨x, hx, rfl⟩ := map_eq_ok.1 h
    rw [if_pos hexpr, ← truth_comparison_operands hw hx, Expr.said_toList]
  · rename_i hexpr
    obtain ⟨column, hcolumn, h⟩ := bind_eq_ok.1 h
    rw [if_neg hexpr, column_sense hcolumn]
    cases column with
    | some column => exact hf column es h
    | none =>
      obtain rfl := pure_eq_ok.1 h
      rfl

/-- A value that is no object says that the column equals it. -/
theorem truth_equality (hw : w.operators = .standard) {column : Expr} {value : Json}
    {group : GroupValue} {es : List Expr} (h : w.equality column value group = .ok es) :
    Expr.said τ es = ((Operator.compare .eq).comparison? column value).map τ := by
  obtain ⟨op, hop, h⟩ := bind_eq_ok.1 h
  obtain ⟨e, he, h⟩ := bind_eq_ok.1 h
  obtain rfl := pure_eq_ok.1 h
  rw [hw] at hop
  cases operatorNamed_of_get hop
  obtain ⟨x, hx, rfl⟩ := map_eq_ok.1 he
  have compared := Condition.comparison_eq_ok hx
  rw [Expr.said_toList, compared, Option.map_some, Option.map_some, truth_comparison compared]

/-- Conditions that are spliced together say what both parts say. -/
theorem said_append {here more : List Expr} {t : Option Truth} {ts : List Truth}
    (hhere : Expr.said τ here = t) (hmore : Expr.said τ more = Truth.all? ts) :
    Expr.said τ (here ++ more) = Truth.all? (t.toList ++ ts) := by
  rw [Expr.said, List.map_append, Truth.all?_append, Truth.all?_append, Truth.all?_toList, ← hmore,
    ← hhere]

/-- Conditions that make one arm say what they say together. -/
theorem map_arm {here more : List Expr} {t : Option Truth} {ts : List Truth}
    (hhere : Expr.said τ here = t) (hmore : more.map (Expr.truth τ) = ts) :
    ((Expr.conjunction here).toList ++ more).map (Expr.truth τ) = t.toList ++ ts := by
  have arm : (Expr.conjunction here).map (Expr.truth τ) = t :=
    (Expr.truth_conjunction here).trans hhere
  rw [List.map_append, hmore, ← arm]
  cases Expr.conjunction here <;> rfl

-- The recursion is that of `View.members` and of the functions that are defined with it.
mutual

theorem said_members (hw : w.operators = .standard) : ∀ (ms : Members) (es : List Expr),
    w.members ms = .ok es → Expr.said τ es = Truth.all? ((w.sense τ).clause ms)
  | [], es, h => by
    obtain rfl := Except.ok.inj h
    rfl
  | (name, value) :: rest, es, h => by
    obtain ⟨here, hhere, h⟩ := bind_eq_ok.1 h
    obtain ⟨more, hmore, h⟩ := bind_eq_ok.1 h
    obtain rfl := pure_eq_ok.1 h
    exact said_append (truth_member hw (means_groupValue hw value) (said_field hw value) hhere)
      (said_members hw rest more hmore)

theorem map_memberArms (hw : w.operators = .standard) : ∀ (ms : Members) (es : List Expr),
    w.memberArms ms = .ok es → es.map (Expr.truth τ) = (w.sense τ).clause ms
  | [], es, h => by
    obtain rfl := Except.ok.inj h
    rfl
  | (name, value) :: rest, es, h => by
    obtain ⟨here, hhere, h⟩ := bind_eq_ok.1 h
    obtain ⟨more, hmore, h⟩ := bind_eq_ok.1 h
    obtain rfl := pure_eq_ok.1 h
    exact map_arm (truth_member hw (means_groupValue hw value) (said_field hw value) hhere)
      (map_memberArms hw rest more hmore)

theorem map_elementArms (hw : w.operators = .standard) : ∀ (xs : List Json) (es : List Expr),
    w.elementArms xs = .ok es → es.map (Expr.truth τ) = (w.sense τ).elements xs
  | [], es, h => by
    obtain rfl := Except.ok.inj h
    rfl
  | x :: xs, es, h => by
    obtain ⟨here, hhere, h⟩ := bind_eq_ok.1 h
    obtain ⟨more, hmore, h⟩ := bind_eq_ok.1 h
    obtain rfl := pure_eq_ok.1 h
    exact map_arm (said_element hw x here hhere) (map_elementArms hw xs more hmore)

theorem said_element (hw : w.operators = .standard) : ∀ (j : Json) (es : List Expr),
    w.element j = .ok es → Expr.said τ es = (w.sense τ).element j
  | .obj ms, es, h => said_members hw ms es h
  | .null, es, h | .bool _, es, h | .num _, es, h | .str _, es, h | .arr _, es, h => by
    obtain rfl := Except.ok.inj h
    rfl

theorem means_groupValue (hw : w.operators = .standard) : ∀ j : Json,
    (w.groupValue j).Means τ ((w.sense τ).parts j)
  | .obj ms => ⟨said_members hw ms, map_memberArms hw ms⟩
  | .arr xs => map_elementArms hw xs
  | .null | .bool _ | .num _ | .str _ => rfl

theorem said_field (hw : w.operators = .standard) : ∀ (j : Json) (column : Expr) (es : List Expr),
    w.field column j = .ok es → Expr.said τ es = (w.sense τ).field column j
  | .obj ms, column, es, h => said_entries hw ms column es h
  | .null, _, _, h | .bool _, _, _, h | .num _, _, _, h | .str _, _, _, h | .arr _, _, _, h =>
    truth_equality hw h

theorem said_entries (hw : w.operators = .standard) : ∀ (ms : Members) (column : Expr)
    (es : List Expr), w.entries column ms = .ok es →
      Expr.said τ es = Truth.all? ((w.sense τ).entries column ms)
  | [], column, es, h => by
    obtain rfl := Except.ok.inj h
    rfl
  | (name, value) :: rest, column, es, h => by
    obtain ⟨op, hop, h⟩ := bind_eq_ok.1 h
    obtain ⟨here, hhere, h⟩ := bind_eq_ok.1 h
    obtain ⟨more, hmore, h⟩ := bind_eq_ok.1 h
    obtain rfl := pure_eq_ok.1 h
    have negated : ∀ e, (if isBlankMember value then .ok none
        else (w.field column value).map Expr.conjunction) = .ok e → e.map (Expr.truth τ) =
          if isBlankMember value then none else (w.sense τ).field column value := by
      intro e he
      split at he
      · rename_i hblank
        obtain rfl := Except.ok.inj he
        rw [if_pos hblank]
        rfl
      · rename_i hblank
        obtain ⟨inner, hinner, rfl⟩ := map_eq_ok.1 he
        rw [if_neg hblank, Expr.truth_conjunction, ← said_field hw value column inner hinner]
    rw [hw] at hop
    have entry := truth_apply_entry (m := w.sense τ) (τ := τ) rfl (operatorNamed_of_get hop)
      (means_groupValue hw value) negated hhere
    rw [← Expr.said_toList] at entry
    exact said_append entry (said_entries hw rest column more hmore)

end

/-- The expression of a tree has the truth that the tree means, whatever the comparisons in it are
taken for; a tree that says nothing has no expression. -/
theorem compile_means (g : Registry) (root : Entity) (s : Session) (clause : Option Members)
    {e : Option Expr} (h : compile ⟨g, root, s, .standard⟩ clause = .ok e) (τ : Expr → Truth) :
    e.map (Expr.truth τ) = (sense ⟨g, root, s, .standard⟩ τ).meaning clause := by
  cases clause with
  | none =>
    obtain rfl := Except.ok.inj h
    rfl
  | some ms =>
    obtain ⟨es, hes, rfl⟩ := map_eq_ok.1 h
    rw [Expr.truth_conjunction]
    exact said_members rfl ms es hes

/-- Entries of a ledger. -/
def ledger : Registry := ⟨.ofList [
  { name := "Entry", properties := [{ name := "amount" }, { name := "kind" }] }]⟩

/-- Negation and a group on a key, a group over a list and one over a mapping, with parts that say
nothing in each. -/
def ledgerClause : Members := [
  ("amount", .obj [("not", .obj [("gt", .int 5), ("lt", .int 9)]),
    ("or", .arr [.obj [("kind", .str "cash")], .obj [("ghost", .int 1)]])]),
  ("!", .arr [.obj [("kind", .null), ("amount", .str "")], .obj []]),
  ("or", .obj [("kind", .str "card"), ("ghost", .int 2)])]

theorem compile_means_ledger : ∃ root e, ledger.entity? "Entry" = some root ∧
    compile ⟨ledger, root, {}, .standard⟩ (some ledgerClause) = .ok (some e) ∧
    (∀ τ, some (e.truth τ) = (sense ⟨ledger, root, {}, .standard⟩ τ).meaning (some ledgerClause)) ∧
    e.truth (fun _ => .unknown) = .unknown ∧ e.truth (fun _ => .yes) = .no := by
  have outcome : (ledger.entity? "Entry").map (fun root =>
      ((compile ⟨ledger, root, {}, .standard⟩ (some ledgerClause)).map Option.isSome,
      [Truth.unknown, Truth.yes].map fun t =>
        (sense ⟨ledger, root, {}, .standard⟩ fun _ => t).meaning (some ledgerClause))) =
      some (.ok true, [some .unknown, some .no]) := by
    decide +kernel
  obtain ⟨root, hroot, h⟩ := Option.map_eq_some_iff.1 outcome
  obtain ⟨hsome, hmeaning⟩ := Prod.mk.inj h
  obtain ⟨e?, he, hsome⟩ := map_eq_ok.1 hsome
  obtain ⟨e, rfl⟩ := Option.isSome_iff_exists.1 hsome
  have means (τ : Expr → Truth) : some (e.truth τ) = _ := compile_means ledger root {} _ he τ
  refine ⟨root, e, hroot, he, means, ?_, ?_⟩
  · simpa [← means] using (List.cons.inj hmeaning).1
  · simpa [← means] using (List.cons.inj (List.cons.inj hmeaning).2).1

end View

end FilterSql
