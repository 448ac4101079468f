import FilterSql.Proofs.Outcome
import FilterSql.Proofs.Sql.Atoms
import FilterSql.Where.Compile
import Mathlib.Tactic.Common

/-!
# The shape of compiled conditions

Every expression that a tree of conditions compiles to is `Compiled`: it is built from comparisons
of operands by negation, conjunctions, and groups whose arms stand in parentheses
(`compiled_compile`).  Operands are bound values and what keys stand for.  Facts about all compiled
conditions go by induction over `Compiled`.
-/

namespace FilterSql

open Sql

namespace View

/-- What a condition compares: what a key stands for, or a bound value. -/
inductive Operand (w : View) : Expr → Prop
  | key {key : String} {e : Expr} (h : w.resolveKey key = .ok (some e)) : Operand w e
  | value (v : Value) : Operand w (.value v)

/-- The expressions that conditions compile to. -/
inductive Compiled (w : View) : Expr → Prop
  | compare {left right : Expr} (op : Comparison) (hl : w.Operand left) (hr : w.Operand right) :
    Compiled w (.compare left op right)
  | isNull {e : Expr} (negated : Bool) (he : w.Operand e) : Compiled w (.isNull e negated)
  | oneOf {e : Expr} {values : List Value} (negated : Bool) (he : w.Operand e) (hv : values ≠ []) :
    Compiled w (.oneOf e (values.map .value) negated)
  | between {e : Expr} (low high : Value) (he : w.Operand e) :
    Compiled w (.between e (.value low) (.value high))
  | not {e : Expr} (he : Compiled w e) : Compiled w (.not e)
  | and {es : List Expr} (hn : es ≠ []) (h : ∀ e ∈ es, Compiled w e) : Compiled w (.and es)
  | all {es : List Expr} (hn : es ≠ []) (h : ∀ e ∈ es, Compiled w e) :
    Compiled w (.nested (.and (es.map .nested)))
  | any {es : List Expr} (hn : es ≠ []) (h : ∀ e ∈ es, Compiled w e) :
    Compiled w (.nested (.or (es.map .nested)))

variable {w : View}

theorem compiled_conjunction {es : List Expr} (h : ∀ e ∈ es, w.Compiled e) {e : Expr}
    (he : Expr.conjunction es = some e) : w.Compiled e := by
  unfold Expr.conjunction at he
  split at he
  · simp at he
  · obtain rfl := Option.some.inj he
    exact h _ (by simp)
  · rename_i es hn _
    obtain rfl := Option.some.inj he
    exact .and hn h

end View

/-- All expressions that a group makes of its value have a property. -/
def GroupValue.Every (P : Expr → Prop) : GroupValue → Prop
  | mapping clause arms => (∀ es, clause () = .ok es → ∀ e ∈ es, P e) ∧
      ∀ es, arms () = .ok es → ∀ e ∈ es, P e
  | list arms => ∀ es, arms () = .ok es → ∀ e ∈ es, P e
  | other => True

namespace View

variable {w : View}

theorem compiled_group {join : List Expr → Expr} {es : List Expr} {e : Expr}
    (hj : es ≠ [] → w.Compiled (.nested (join (es.map .nested))))
    (he : GroupValue.group join es = some e) : w.Compiled e := by
  unfold GroupValue.group at he
  split at he
  · simp at he
  · rename_i hn
    obtain rfl := Option.some.inj he
    exact hj hn

theorem compiled_all {value : GroupValue} (h : value.Every w.Compiled) {e : Expr}
    (he : value.all = .ok (some e)) : w.Compiled e := by
  cases value with
  | mapping clause arms =>
    obtain ⟨es, hes, he⟩ := map_eq_ok.1 he
    exact compiled_conjunction (h.1 es hes) he
  | list arms =>
    obtain ⟨es, hes, he⟩ := map_eq_ok.1 he
    exact compiled_group (fun hn => .all hn (h es hes)) he
  | other => simp [GroupValue.all] at he

theorem compiled_any {value : GroupValue} (h : value.Every w.Compiled) {e : Expr}
    (he : value.any = .ok (some e)) : w.Compiled e := by
  cases value with
  | mapping clause arms =>
    obtain ⟨es, hes, he⟩ := map_eq_ok.1 he
    exact compiled_group (fun hn => .any hn (h.2 es hes)) he
  | list arms =>
    obtain ⟨es, hes, he⟩ := map_eq_ok.1 he
    exact compiled_group (fun hn => .any hn (h es hes)) he
  | other => simp [GroupValue.any] at he

/-- A condition between operands. -/
def Compares (w : View) (c : Condition) : Prop :=
  (∀ e ∈ c.column, w.Operand e) ∧ ∀ e ∈ c.operand, w.Operand e

theorem choices_eq (j : Json) : ∃ values, values ≠ [] ∧ choices j = values.map .value := by
  unfold choices
  split
  · exact ⟨[.null], by simp, rfl⟩
  · rename_i xs hn
    exact ⟨xs.map .ofJson, by simpa using hn, by simp [bound]⟩
  · exact ⟨[.null], by simp, rfl⟩
  · exact ⟨[.ofJson _], by simp, rfl⟩

theorem operand_of_requireColumn {c : Condition} (hc : w.Compares c) {e : Expr}
    (h : c.requireColumn = .ok e) : w.Operand e := by
  unfold Condition.requireColumn at h
  split at h
  · rename_i column hcolumn
    obtain rfl := Except.ok.inj h
    exact hc.1 _ hcolumn
  · simp at h

theorem compiled_comparison {c : Condition} (hc : w.Compares c) {op : Comparison} {e : Expr}
    (h : c.comparison op = .ok e) : w.Compiled e := by
  obtain ⟨column, hcolumn, h⟩ := bind_eq_ok.1 h
  have left : w.Operand column := operand_of_requireColumn hc hcolumn
  cases hoperand : c.operand with
  | some operand =>
    rw [hoperand] at h
    obtain rfl := pure_eq_ok.1 h
    exact .compare _ left (hc.2 _ hoperand)
  | none =>
    rw [hoperand] at h
    split at h
    · obtain rfl := pure_eq_ok.1 h
      exact .isNull _ left
    · obtain rfl := pure_eq_ok.1 h
      exact .isNull _ left
    · obtain rfl := pure_eq_ok.1 h
      exact .compare _ left (.value _)
    · rename_i hsome _
      simp at hsome

theorem compiled_membership {c : Condition} (hc : w.Compares c) {negated : Bool} {e : Expr}
    (h : c.membership negated = .ok e) : w.Compiled e := by
  obtain ⟨-, -, h⟩ := bind_eq_ok.1 h
  obtain ⟨column, hcolumn, h⟩ := bind_eq_ok.1 h
  obtain rfl := pure_eq_ok.1 h
  obtain ⟨values, hv, hchoices⟩ := choices_eq c.value
  rw [hchoices]
  exact .oneOf _ (operand_of_requireColumn hc hcolumn) hv

theorem compiled_range {c : Condition} (hc : w.Compares c) {e : Expr} (h : c.range = .ok e) :
    w.Compiled e := by
  obtain ⟨-, -, h⟩ := bind_eq_ok.1 h
  split at h
  · rename_i xs _
    obtain ⟨column, hcolumn, h⟩ := bind_eq_ok.1 h
    obtain rfl := pure_eq_ok.1 h
    have bound? (i : Nat) :
        ∃ v, (((xs.drop i).head?.map bound).getD (.value .null)) = .value v := by
      cases (xs.drop i).head? with
      | none => exact ⟨_, rfl⟩
      | some j => exact ⟨_, rfl⟩
    obtain ⟨low, hlow⟩ := bound? 0
    obtain ⟨high, hhigh⟩ := bound? 1
    simp only [hlow, hhigh]
    exact .between low high (operand_of_requireColumn hc hcolumn)
  · simp at h

/-- Any operator keeps the shape. -/
theorem compiled_apply {op : Operator} {c : Condition} (hc : w.Compares c) {value : GroupValue}
    (hv : value.Every w.Compiled) {negated : Unit → Except CompileError (Option Expr)}
    (hn : ∀ e, negated () = .ok (some e) → w.Compiled e) {e : Expr}
    (h : apply op c value negated = .ok (some e)) : w.Compiled e := by
  cases op with
  | compare op =>
    obtain ⟨x, hx, he⟩ := map_eq_ok.1 h
    obtain rfl := Option.some.inj he
    exact compiled_comparison hc hx
  | oneOf negated =>
    obtain ⟨x, hx, he⟩ := map_eq_ok.1 h
    obtain rfl := Option.some.inj he
    exact compiled_membership hc hx
  | between =>
    obtain ⟨x, hx, he⟩ := map_eq_ok.1 h
    obtain rfl := Option.some.inj he
    exact compiled_range hc hx
  | and =>
    obtain ⟨-, -, h⟩ := bind_eq_ok.1 h
    exact compiled_all hv h
  | or =>
    obtain ⟨-, -, h⟩ := bind_eq_ok.1 h
    exact compiled_any hv h
  | not =>
    obtain ⟨-, -, h⟩ := bind_eq_ok.1 h
    obtain ⟨inner, hinner, h⟩ := bind_eq_ok.1 h
    obtain ⟨x, rfl, rfl⟩ := Option.map_eq_some_iff.1 (pure_eq_ok.1 h)
    exact .not (hn x hinner)

theorem operand_of_operand {j : Json} {e : Expr} (h : w.operand j = .ok (some e)) :
    w.Operand e := by
  unfold operand at h
  split at h
  · exact .key h
  · obtain rfl := Option.some.inj (Except.ok.inj h)
    exact .value _

/-- A comparison of two operands has the shape. -/
theorem compiled_exprComparison {value : Json} {e : Expr}
    (h : w.comparison value = .ok (some e)) : w.Compiled e := by
  obtain ⟨⟨name, left, right⟩, -, h⟩ := bind_eq_ok.1 h
  obtain ⟨leftExpr, hleft, h⟩ := bind_eq_ok.1 h
  obtain ⟨rightExpr, hright, h⟩ := bind_eq_ok.1 h
  split at h
  · rename_i l r
    obtain ⟨op, -, h⟩ := bind_eq_ok.1 h
    have other : GroupValue.Every w.Compiled .other := trivial
    refine compiled_apply ⟨?_, ?_⟩ other (by simp) h
    · rintro x ⟨⟩
      exact operand_of_operand hleft
    · rintro x ⟨⟩
      exact operand_of_operand hright
  · simp [pure, Except.pure] at h

/-- A member keeps the shape of what its value makes as a group and on a column. -/
theorem compiled_member {name : String} {value : Json} {group : GroupValue}
    {field : Expr → Except CompileError (List Expr)} (hg : group.Every w.Compiled)
    (hf : ∀ column es, w.Operand column → field column = .ok es → ∀ e ∈ es, w.Compiled e)
    {es : List Expr} (h : w.member name value group field = .ok es) : ∀ e ∈ es, w.Compiled e := by
  unfold member at h
  split at h
  · obtain rfl := Except.ok.inj h
    simp
  split at h
  · obtain ⟨op, -, h⟩ := bind_eq_ok.1 h
    obtain ⟨x, hx, h⟩ := bind_eq_ok.1 h
    obtain rfl := pure_eq_ok.1 h
    intro e he
    obtain rfl := Option.mem_toList.1 he
    exact compiled_apply ⟨by simp, by simp⟩ hg (fun e he => compiled_all hg he) hx
  split at h
  · obtain ⟨x, hx, rfl⟩ := map_eq_ok.1 h
    intro e he
    obtain rfl := Option.mem_toList.1 he
    exact compiled_exprComparison hx
  · obtain ⟨column, hcolumn, h⟩ := bind_eq_ok.1 h
    split at h
    · exact hf _ es (.key hcolumn) h
    · obtain rfl := pure_eq_ok.1 h
      simp

theorem compiled_equality {column : Expr} (hc : w.Operand column) {value : Json}
    {group : GroupValue} (hg : group.Every w.Compiled) {es : List Expr}
    (h : w.equality column value group = .ok es) : ∀ e ∈ es, w.Compiled e := by
  obtain ⟨op, -, h⟩ := bind_eq_ok.1 h
  obtain ⟨x, hx, h⟩ := bind_eq_ok.1 h
  obtain rfl := pure_eq_ok.1 h
  intro e he
  obtain rfl := Option.mem_toList.1 he
  exact compiled_apply ⟨by simpa using hc, by simp⟩ hg (by simp) hx

theorem compiled_arm {here : List Expr} (h : ∀ e ∈ here, w.Compiled e) :
    ∀ e ∈ (Expr.conjunction here).toList, w.Compiled e := fun _ he =>
  compiled_conjunction h (Option.mem_toList.1 he)

theorem compiled_append {es fs : List Expr} (he : ∀ e ∈ es, w.Compiled e)
    (hf : ∀ e ∈ fs, w.Compiled e) : ∀ e ∈ es ++ fs, w.Compiled e := fun e h =>
  (List.mem_append.1 h).elim (he e) (hf e)

/-! ## Trees -/

-- The recursion is that of `View.members` and of the functions that are defined with it.
mutual

theorem compiled_members : ∀ (ms : Members) (es : List Expr),
    w.members ms = .ok es → ∀ e ∈ es, w.Compiled e
  | [], es, h => by
    obtain rfl := Except.ok.inj h
    simp
  | (name, value) :: rest, es, h => by
    obtain ⟨here, hhere, h⟩ := bind_eq_ok.1 h
    obtain ⟨more, hmore, h⟩ := bind_eq_ok.1 h
    obtain rfl := pure_eq_ok.1 h
    exact compiled_append
      (compiled_member (every_groupValue value) (compiled_field value) hhere)
      (compiled_members rest more hmore)

theorem compiled_memberArms : ∀ (ms : Members) (es : List Expr),
    w.memberArms ms = .ok es → ∀ e ∈ es, w.Compiled e
  | [], es, h => by
    obtain rfl := Except.ok.inj h
    simp
  | (name, value) :: rest, es, h => by
    obtain ⟨here, hhere, h⟩ := bind_eq_ok.1 h
    obtain ⟨more, hmore, h⟩ := bind_eq_ok.1 h
    obtain rfl := pure_eq_ok.1 h
    exact compiled_append
      (compiled_arm (compiled_member (every_groupValue value) (compiled_field value) hhere))
      (compiled_memberArms rest more hmore)

theorem compiled_elementArms : ∀ (xs : List Json) (es : List Expr),
    w.elementArms xs = .ok es → ∀ e ∈ es, w.Compiled e
  | [], es, h => by
    obtain rfl := Except.ok.inj h
    simp
  | x :: xs, es, h => by
    obtain ⟨here, hhere, h⟩ := bind_eq_ok.1 h
    obtain ⟨more, hmore, h⟩ := bind_eq_ok.1 h
    obtain rfl := pure_eq_ok.1 h
    exact compiled_append (compiled_arm (compiled_element x here hhere))
      (compiled_elementArms xs more hmore)

theorem compiled_element : ∀ (j : Json) (es : List Expr),
    w.element j = .ok es → ∀ e ∈ es, w.Compiled e
  | .obj ms, es, h => compiled_members ms es h
  | .null, es, h | .bool _, es, h | .num _, es, h | .str _, es, h | .arr _, es, h => by
    obtain rfl := Except.ok.inj h
    simp

theorem every_groupValue : ∀ j : Json, (w.groupValue j).Every w.Compiled
  | .obj ms => ⟨compiled_members ms, compiled_memberArms ms⟩
  | .arr xs => compiled_elementArms xs
  | .null | .bool _ | .num _ | .str _ => trivial

theorem compiled_field : ∀ (j : Json) (column : Expr) (es : List Expr), w.Operand column →
    w.field column j = .ok es → ∀ e ∈ es, w.Compiled e
  | .obj ms, column, es, hc, h => compiled_entries ms column es hc h
  | .arr xs, column, es, hc, h => by
    have arms : (GroupValue.list fun _ => w.elementArms xs).Every w.Compiled :=
      compiled_elementArms xs
    exact compiled_equality hc arms h
  | .null, column, es, hc, h | .bool _, column, es, hc, h | .num _, column, es, hc, h
  | .str _, column, es, hc, h => by
    have other : GroupValue.other.Every w.Compiled := trivial
    exact compiled_equality hc other h

theorem compiled_entries : ∀ (ms : Members) (column : Expr) (es : List Expr), w.Operand column →
    w.entries column ms = .ok es → ∀ e ∈ es, w.Compiled e
  | [], column, es, hc, h => by
    obtain rfl := Except.ok.inj h
    simp
  | (name, value) :: rest, column, es, hc, h => by
    obtain ⟨op, -, h⟩ := bind_eq_ok.1 h
    obtain ⟨here, hhere, h⟩ := bind_eq_ok.1 h
    obtain ⟨more, hmore, h⟩ := bind_eq_ok.1 h
    obtain rfl := pure_eq_ok.1 h
    have negated : ∀ e, (if isBlankMember value then .ok none
        else (w.field column value).map Expr.conjunction) = .ok (some e) → w.Compiled e := by
      intro e he
      split at he
      · simp at he
      · obtain ⟨inner, hinner, he⟩ := map_eq_ok.1 he
        exact compiled_conjunction (compiled_field value column inner hc hinner) he
    refine compiled_append (fun e he => ?_) (compiled_entries rest column more hc hmore)
    obtain rfl := Option.mem_toList.1 he
    exact compiled_apply ⟨by simpa using hc, by simp⟩ (every_groupValue value) negated hhere

end

/-- The expression of a tree of conditions has the shape. -/
theorem compiled_compile {clause : Option Members} {e : Expr}
    (h : w.compile clause = .ok (some e)) : w.Compiled e := by
  unfold compile at h
  split at h
  · obtain ⟨es, hes, he⟩ := map_eq_ok.1 h
    exact compiled_conjunction (compiled_members _ es hes) he
  · simp at h

/-- Compiled conditions consist of bound values and of what keys stand for. -/
theorem Compiled.atoms {e : Expr} (h : w.Compiled e) : ∀ a ∈ e.atoms, (∃ v, a = .value v) ∨
    ∃ key k, w.resolveKey key = .ok (some k) ∧ a ∈ k.atoms := by
  have operand {e : Expr} (h : w.Operand e) : ∀ a ∈ e.atoms, (∃ v, a = .value v) ∨
      ∃ key k, w.resolveKey key = .ok (some k) ∧ a ∈ k.atoms := by
    intro a ha
    cases h with
    | key h => exact .inr ⟨_, _, h, ha⟩
    | value v => exact .inl ⟨v, by simpa [Expr.atoms] using ha⟩
  induction h with
  | compare op hl hr =>
    simp only [Expr.atoms, List.mem_append, or_imp, forall_and]
    exact ⟨operand hl, operand hr⟩
  | isNull negated he => exact fun a ha => operand he a ha
  | oneOf negated he hv =>
    simp only [Expr.atoms, Expr.listAtoms_eq, List.mem_append, or_imp, forall_and]
    refine ⟨operand he, fun a ha => ?_⟩
    simp only [List.flatMap_map, List.mem_flatMap, Expr.atoms, List.mem_singleton] at ha
    obtain ⟨v, -, rfl⟩ := ha
    exact .inl ⟨v, rfl⟩
  | between low high he =>
    simp only [Expr.atoms, List.mem_append, or_imp, forall_and]
    refine ⟨⟨operand he, fun a ha => .inl ⟨low, ?_⟩⟩, fun a ha => .inl ⟨high, ?_⟩⟩
    · simpa using ha
    · simpa using ha
  | not he ih => exact ih
  | and hn h ih | all hn h ih | any hn h ih =>
    intro a ha
    simp only [Expr.atoms, Expr.listAtoms_eq, List.flatMap_map, List.mem_flatMap] at ha
    obtain ⟨e, he, ha⟩ := ha
    exact ih e he a ha

end View

end FilterSql
