import FilterSql.Plan.Keys
import FilterSql.Proofs.Outcome
import FilterSql.Proofs.Sql.Shapes
import FilterSql.Where.Compile

/-!
# Scalars of a tree of conditions

`Json.struck` strikes out the scalars of a tree that are only bound: numbers, truth values, and
texts that are neither empty nor refer to keys.  A tree mentions the keys that the struck tree
mentions (`FilterKey.ofClause_struck`), and compiles to expressions of the same shape, or fails with
the same error (`View.alike_compile`).
-/

namespace FilterSql

open Sql

namespace Json

mutual

/-- The value with `true` in the place of every number, of every truth value, and of every text that
is not empty and does not begin with `$`.  What a join directive holds stays. -/
def struck : Json → Json
  | .null => .null
  | .bool _ | .num _ => .bool true
  | .str s => if s.toList.head?.any (· != '$') then .bool true else .str s
  | .arr xs => .arr (struckElements xs)
  | .obj ms => .obj (struckMembers ms)

/-- Elements with their scalars struck out. -/
def struckElements : List Json → List Json
  | [] => []
  | x :: xs => struck x :: struckElements xs

/-- Members with the scalars of their values struck out. -/
def struckMembers : Members → Members
  | [] => []
  | (name, value) :: rest =>
    (name, if name = joinDirective then value else struck value) :: struckMembers rest

end

theorem struckElements_eq (xs : List Json) : struckElements xs = xs.map struck := by
  induction xs with
  | nil => rfl
  | cons x xs ih => rw [struckElements, ih, List.map_cons]

theorem obj?_struck (j : Json) : j.struck.obj? = j.obj?.map struckMembers := by
  cases j with
  | str s =>
    rw [struck]
    split <;> rfl
  | _ => rfl

/-- A text is struck out if it is not empty and refers to no key, and otherwise stays. -/
@[elab_as_elim]
theorem struck_str {P : Json → Prop} (s : String)
    (strike : projection? (.str s) = none → s ≠ "" → P (.bool true)) (stay : P (.str s)) :
    P (Json.str s).struck := by
  rw [struck]
  split_ifs with h
  · refine strike ?_ ?_
    · simp only [projection?]
      cases htext : s.toList with
      | nil => rfl
      | cons c rest =>
        have hc : c ≠ '$' := by simpa [htext] using h
        split
        · rename_i heq
          exact absurd (List.cons.inj heq).1 hc
        · rfl
    · rintro rfl
      exact absurd h (by decide)
  · exact stay

@[simp] theorem projection?_struck (j : Json) : projection? j.struck = projection? j := by
  cases j with
  | str s => exact struck_str s (fun hnone _ => hnone.symm) rfl
  | _ => rfl

@[simp] theorem isBlankMember_struck (j : Json) : isBlankMember j.struck = isBlankMember j := by
  cases j with
  | str s =>
    refine struck_str s (fun _ hne => ?_) rfl
    simp [isBlankMember, hne]
  | arr xs => cases xs <;> rfl
  | _ => rfl

/-- A comparison of operands keeps its form; under a join directive its operands stay. -/
theorem exprOperands_struck (j : Json) : exprOperands j.struck = exprOperands j ∨
    ∃ name left right, exprOperands j = .ok (name, left, right) ∧
      exprOperands j.struck = .ok (name, left.struck, right.struck) := by
  cases j with
  | obj ms =>
    cases ms with
    | nil => exact .inl rfl
    | cons m rest =>
      obtain ⟨name, value⟩ := m
      rw [struck, struckMembers]
      split_ifs with hname
      · left
        cases value with
        | arr xs =>
          match xs with
          | [] | [_] | [_, _] | _ :: _ :: _ :: _ => rfl
        | _ => rfl
      · cases value with
        | arr xs =>
          match xs with
          | [] | [_] | _ :: _ :: _ :: _ => exact .inl rfl
          | [left, right] => exact .inr ⟨name, left, right, rfl, rfl⟩
        | str s => exact .inl (struck_str s (fun _ _ => rfl) rfl)
        | _ => exact .inl rfl
  | str s => exact .inl (struck_str s (fun _ _ => rfl) rfl)
  | _ => exact .inl rfl

end Json

open Json

/-! ## Keys -/

namespace FilterKey

theorem ofMember_struck (name : String) (value : Json) :
    ofMember name (if name = joinDirective then value else value.struck) = ofMember name value := by
  split_ifs with hjoin
  · rfl
  unfold ofMember
  rw [if_neg hjoin, if_neg hjoin]
  split_ifs
  · obtain h | ⟨operator, left, right, hvalue, hstruck⟩ := exprOperands_struck value
    · rw [h]
    · rw [hvalue, hstruck]
      simp [Except.map, ofOperands, List.filterMap_cons]
  · rfl

-- The recursion is that of `FilterKey.mentions` and of the functions that are defined with it.
mutual

theorem mentions_struck : ∀ ms : Members, mentions (struckMembers ms) = mentions ms
  | [] => rfl
  | (name, value) :: rest => by
    rw [struckMembers, mentions, mentions, mentions_struck rest, ofMember_struck]
    split_ifs with hgroup hjoin
    · rfl
    · rw [groupMentions_struck value]
    · rfl

theorem groupMentions_struck : ∀ j : Json, groupMentions j.struck = groupMentions j
  | .obj ms => mentions_struck ms
  | .arr xs => armMentions_struck xs
  | .str s => struck_str s (fun _ _ => rfl) rfl
  | .null | .bool _ | .num _ => rfl

theorem armMentions_struck : ∀ xs : List Json, armMentions (struckElements xs) = armMentions xs
  | [] => rfl
  | x :: xs => by
    rw [struckElements, armMentions, armMentions, elementMentions_struck x, armMentions_struck xs]

theorem elementMentions_struck : ∀ j : Json, elementMentions j.struck = elementMentions j
  | .obj ms => mentions_struck ms
  | .str s => struck_str s (fun _ _ => rfl) rfl
  | .null | .bool _ | .num _ | .arr _ => rfl

end

/-- A tree refers to the keys that the struck tree refers to. -/
theorem ofClause_struck (ms : Members) : ofClause (struckMembers ms) = ofClause ms := by
  rw [ofClause, ofClause, mentions_struck]

end FilterKey

/-! ## Conditions -/

variable {d : Dialect}

/-- Groups that make expressions of the same shapes of their values. -/
inductive GroupValue.SameShapes (d : Dialect) : GroupValue → GroupValue → Prop
  | mapping {clause clause' arms arms' : Unit → Except CompileError (List Expr)}
    (hc : Alike (Expr.SameShapes d) (clause ()) (clause' ()))
    (ha : Alike (Expr.SameShapes d) (arms ()) (arms' ())) :
    SameShapes d (.mapping clause arms) (.mapping clause' arms')
  | list {arms arms' : Unit → Except CompileError (List Expr)}
    (ha : Alike (Expr.SameShapes d) (arms ()) (arms' ())) : SameShapes d (.list arms) (.list arms')
  | other : SameShapes d .other .other

namespace GroupValue

variable {value value' : GroupValue}

theorem sameShape_group {join : List Expr → Expr} {es es' : List Expr}
    (hj : ∀ {fs fs'}, Expr.SameShapes d fs fs' → (join fs).SameShape d (join fs'))
    (h : Expr.SameShapes d es es') :
    Option.Rel (Expr.SameShape d) (group join es) (group join es') := by
  have lengths : es.length = es'.length := by simpa using congrArg List.length h
  match es, es', lengths with
  | [], [], _ => exact .none
  | e :: es, e' :: es', _ =>
    have joined := hj h.nested
    refine .some ?_
    rw [Expr.SameShape, Expr.shape_nested, Expr.shape_nested, joined]

theorem SameShapes.all (h : value.SameShapes d value') :
    Alike (Option.Rel (Expr.SameShape d)) value.all value'.all := by
  cases h with
  | mapping hc ha => exact hc.map fun _ _ h => h.conjunction
  | list ha => exact ha.map fun _ _ h => sameShape_group (·.and) h
  | other => exact .ok .none

theorem SameShapes.any (h : value.SameShapes d value') :
    Alike (Option.Rel (Expr.SameShape d)) value.any value'.any := by
  cases h with
  | mapping hc ha => exact ha.map fun _ _ h => sameShape_group (·.or) h
  | list ha => exact ha.map fun _ _ h => sameShape_group (·.or) h
  | other => exact .ok .none

end GroupValue

@[simp] theorem shape_bound (j : Json) : (bound j).shape d = [.bound .null] := rfl

theorem sameShapes_choices (j : Json) : Expr.SameShapes d (choices j.struck) (choices j) := by
  cases j with
  | arr xs =>
    cases xs with
    | nil => rfl
    | cons x xs => simp [struck, struckElements_eq, Expr.SameShapes, choices]
  | str s => exact struck_str s (fun _ _ => rfl) rfl
  | _ => rfl

/-- The operator is used with the struck value, and otherwise in the same way. -/
inductive Condition.Struck (d : Dialect) : Condition → Condition → Prop
  | mk {name : String} {column column' operand operand' : Option Expr} {value : Json}
    (hc : Option.Rel (Expr.SameShape d) column column')
    (ho : Option.Rel (Expr.SameShape d) operand operand') :
    Struck d ⟨name, column, value.struck, operand⟩ ⟨name, column', value, operand'⟩

namespace Condition.Struck

variable {c c' : Condition}

theorem requireColumn (h : c.Struck d c') :
    Alike (Expr.SameShape d) c.requireColumn c'.requireColumn := by
  obtain ⟨hc, ho⟩ := h
  cases hc with
  | none => exact .error _
  | some h => exact .ok h

theorem refuseOperand (h : c.Struck d c') : c.refuseOperand = c'.refuseOperand := by
  obtain ⟨hc, ho⟩ := h
  cases ho <;> rfl

theorem comparison (h : c.Struck d c') (op : Comparison) :
    Alike (Expr.SameShape d) (c.comparison op) (c'.comparison op) := by
  refine h.requireColumn.bind fun column column' hcolumn => ?_
  have compared {right right' : Expr} (h : right.SameShape d right') :
      (Expr.compare column op right).SameShape d (.compare column' op right') := by
    rw [Expr.SameShape] at hcolumn h ⊢
    rw [Expr.shape_compare, Expr.shape_compare, hcolumn, h]
  have tested (negated : Bool) :
      (Expr.isNull column negated).SameShape d (.isNull column' negated) := by
    rw [Expr.SameShape] at hcolumn ⊢
    rw [Expr.shape_isNull, Expr.shape_isNull, hcolumn]
  obtain @⟨_, _, _, _, _, value, -, ho⟩ := h
  cases ho with
  | some h => exact .ok (compared h)
  | none =>
    -- Only null is told from other values, and it stays.
    cases value with
    | null =>
      cases op with
      | eq | notEq => exact .ok (tested _)
      | _ => exact .ok (compared rfl)
    | str s => exact struck_str s (fun _ _ => .ok (compared rfl)) (.ok (compared rfl))
    | _ => exact .ok (compared rfl)

theorem membership (h : c.Struck d c') (negated : Bool) :
    Alike (Expr.SameShape d) (c.membership negated) (c'.membership negated) := by
  unfold Condition.membership
  rw [h.refuseOperand]
  refine Alike.bind_same fun _ _ => h.requireColumn.bind fun column column' hcolumn => .ok ?_
  obtain @⟨_, _, _, _, _, value, -, -⟩ := h
  have shapes : Expr.SameShapes d (choices value.struck) (choices value) := sameShapes_choices value
  rw [Expr.SameShape] at hcolumn ⊢
  rw [Expr.shape_oneOf, Expr.shape_oneOf, hcolumn, shapes]

theorem range (h : c.Struck d c') : Alike (Expr.SameShape d) c.range c'.range := by
  unfold Condition.range
  rw [h.refuseOperand]
  refine Alike.bind_same fun _ _ => ?_
  have column := h.requireColumn
  have missing (xs : List Json) (i : Nat) :
      (((xs.drop i).head?.map bound).getD (.value .null)).shape d = [.bound .null] := by
    cases xs.drop i <;> rfl
  obtain @⟨_, _, _, _, _, value, -, -⟩ := h
  cases value with
  | arr xs =>
    refine column.bind fun column column' hcolumn => .ok ?_
    rw [Expr.SameShape] at hcolumn ⊢
    simp only [Expr.shape_between, hcolumn, missing]
  | str s => exact struck_str s (fun _ _ => .error _) (.error _)
  | _ => exact .error _

end Condition.Struck

/-! ## Trees -/

namespace View

variable {w : View}

theorem sameShape_refl (e : Option Expr) : Option.Rel (Expr.SameShape d) e e := by
  cases e with
  | none => exact .none
  | some e => exact .some rfl

/-- Operators do not look at scalars. -/
theorem alike_apply (op : Operator) {c c' : Condition} (hc : c.Struck d c')
    {value value' : GroupValue} (hv : value.SameShapes d value')
    {negated negated' : Unit → Except CompileError (Option Expr)}
    (hn : Alike (Option.Rel (Expr.SameShape d)) (negated ()) (negated' ())) :
    Alike (Option.Rel (Expr.SameShape d)) (apply op c value negated)
      (apply op c' value' negated') := by
  cases op with
  | compare op => exact (hc.comparison op).map fun _ _ h => .some h
  | oneOf negated => exact (hc.membership negated).map fun _ _ h => .some h
  | between => exact hc.range.map fun _ _ h => .some h
  | and =>
    unfold apply
    rw [hc.refuseOperand]
    exact Alike.bind_same fun _ _ => hv.all
  | or =>
    unfold apply
    rw [hc.refuseOperand]
    exact Alike.bind_same fun _ _ => hv.any
  | not =>
    unfold apply
    rw [hc.refuseOperand]
    refine Alike.bind_same fun _ _ => hn.bind fun e e' h => .ok ?_
    cases h with
    | none => exact .none
    | some h =>
      refine .some ?_
      rw [Expr.SameShape] at h ⊢
      rw [Expr.shape_not, Expr.shape_not, h]

theorem alike_operand (j : Json) :
    Alike (Option.Rel (Expr.SameShape d)) (w.operand j.struck) (w.operand j) := by
  unfold operand
  rw [projection?_struck]
  cases projection? j with
  | none => exact .ok (.some rfl)
  | some key => exact Alike.refl sameShape_refl _

theorem alike_comparison (value : Json) :
    Alike (Option.Rel (Expr.SameShape d)) (w.comparison value.struck) (w.comparison value) := by
  unfold comparison
  obtain h | ⟨name, left, right, hvalue, hstruck⟩ := exprOperands_struck value
  · rw [h]
    exact Alike.refl sameShape_refl _
  · rw [hvalue, hstruck]
    show Alike _ (w.operand left.struck >>= _) (w.operand left >>= _)
    refine (alike_operand (d := d) left).bind fun l l' hl =>
      (alike_operand (d := d) right).bind fun r r' hr => ?_
    cases hl with
    | none => exact .ok .none
    | some hl =>
      cases hr with
      | none => exact .ok .none
      | some hr =>
        exact Alike.bind_same fun op _ => alike_apply op ⟨.some hl, .some hr⟩ .other (.ok .none)

/-- A member that is struck out has conditions of the same shape, if its value as a group and on a
column has. -/
theorem alike_member {name : String} {value : Json}
    (hg : (w.groupValue value.struck).SameShapes d (w.groupValue value))
    (hf : ∀ column,
      Alike (Expr.SameShapes d) (w.field column value.struck) (w.field column value)) :
    Alike (Expr.SameShapes d)
      (w.member name (if name = joinDirective then value else value.struck)
        (w.groupValue (if name = joinDirective then value else value.struck))
        fun column => w.field column (if name = joinDirective then value else value.struck))
      (w.member name value (w.groupValue value) fun column => w.field column value) := by
  by_cases hjoin : name = joinDirective
  · simp only [if_pos hjoin]
    exact Alike.refl (R := Expr.SameShapes d) (fun _ => rfl) _
  simp only [if_neg hjoin]
  unfold member
  rw [isBlankMember_struck]
  split_ifs
  · exact .ok rfl
  · refine Alike.bind_same fun op _ => ?_
    exact (alike_apply op ⟨.none, .none⟩ hg hg.all).bind fun _ _ h =>
      .ok (Expr.SameShapes.of_rel h)
  · exact (alike_comparison value).map fun _ _ h => Expr.SameShapes.of_rel h
  · refine Alike.bind_same fun column? _ => ?_
    cases column? with
    | none => exact .ok rfl
    | some column => exact hf column

theorem alike_equality (column : Expr) (value : Json) {group group' : GroupValue}
    (hg : group.SameShapes d group') : Alike (Expr.SameShapes d)
      (w.equality column value.struck group) (w.equality column value group') := by
  refine Alike.bind_same fun op _ => ?_
  have used : Condition.Struck d ⟨"=", some column, value.struck, none⟩
      ⟨"=", some column, value, none⟩ := ⟨.some rfl, .none⟩
  exact (alike_apply op used hg (.error _)).bind fun _ _ h => .ok (Expr.SameShapes.of_rel h)

/-- An operator on a column whose value is struck out has a condition of the same shape. -/
theorem alike_entry (op : Operator) (name : String) (column : Expr) {value : Json}
    (hg : (w.groupValue value.struck).SameShapes d (w.groupValue value))
    (hf : Alike (Expr.SameShapes d) (w.field column value.struck) (w.field column value)) :
    Alike (Option.Rel (Expr.SameShape d))
      (apply op ⟨name, some column, value.struck, none⟩ (w.groupValue value.struck) fun _ =>
        if isBlankMember value.struck then .ok none
        else (w.field column value.struck).map Expr.conjunction)
      (apply op ⟨name, some column, value, none⟩ (w.groupValue value) fun _ =>
        if isBlankMember value then .ok none
        else (w.field column value).map Expr.conjunction) := by
  refine alike_apply op ⟨.some rfl, .none⟩ hg ?_
  rw [isBlankMember_struck]
  split_ifs
  · exact .ok .none
  · exact hf.map fun _ _ h => h.conjunction

-- The recursion is that of `View.members` and of the functions that are defined with it.
mutual

theorem alike_members : ∀ ms : Members,
    Alike (Expr.SameShapes d) (w.members (struckMembers ms)) (w.members ms)
  | [] => .ok rfl
  | (name, value) :: rest => by
    rw [struckMembers, members, members]
    exact (alike_member (sameShapes_groupValue value) (alike_field value)).bind fun _ _ hhere =>
      (alike_members rest).bind fun _ _ hmore => .ok (hhere.append hmore)

theorem alike_memberArms : ∀ ms : Members,
    Alike (Expr.SameShapes d) (w.memberArms (struckMembers ms)) (w.memberArms ms)
  | [] => .ok rfl
  | (name, value) :: rest => by
    rw [struckMembers, memberArms, memberArms]
    exact (alike_member (sameShapes_groupValue value) (alike_field value)).bind fun _ _ hhere =>
      (alike_memberArms rest).bind fun _ _ hmore =>
        .ok ((Expr.SameShapes.of_rel hhere.conjunction).append hmore)

theorem alike_elementArms : ∀ xs : List Json,
    Alike (Expr.SameShapes d) (w.elementArms (struckElements xs)) (w.elementArms xs)
  | [] => .ok rfl
  | x :: xs => by
    rw [struckElements, elementArms, elementArms]
    exact (alike_element x).bind fun _ _ hhere => (alike_elementArms xs).bind fun _ _ hmore =>
      .ok ((Expr.SameShapes.of_rel hhere.conjunction).append hmore)

theorem alike_element : ∀ j : Json,
    Alike (Expr.SameShapes d) (w.element j.struck) (w.element j)
  | .obj ms => alike_members ms
  | .str s => struck_str s (fun _ _ => .ok rfl) (.ok rfl)
  | .null | .bool _ | .num _ | .arr _ => .ok rfl

theorem sameShapes_groupValue : ∀ j : Json,
    (w.groupValue j.struck).SameShapes d (w.groupValue j)
  | .obj ms => .mapping (alike_members ms) (alike_memberArms ms)
  | .arr xs => .list (alike_elementArms xs)
  | .str s => struck_str s (fun _ _ => .other) .other
  | .null | .bool _ | .num _ => .other

theorem alike_field : ∀ (j : Json) (column : Expr),
    Alike (Expr.SameShapes d) (w.field column j.struck) (w.field column j)
  | .obj ms, column => alike_entries ms column
  | .arr xs, column => alike_equality column (.arr xs) (.list (alike_elementArms xs))
  | .str s, column => by
    have same := alike_equality (w := w) (d := d) column (.str s) .other
    revert same
    exact struck_str s (fun _ _ => id) id
  | .null, column => alike_equality column .null .other
  | .bool b, column => alike_equality column (.bool b) .other
  | .num n, column => alike_equality column (.num n) .other

theorem alike_entries : ∀ (ms : Members) (column : Expr),
    Alike (Expr.SameShapes d) (w.entries column (struckMembers ms)) (w.entries column ms)
  | [], _ => .ok rfl
  | (name, value) :: rest, column => by
    rw [struckMembers, entries, entries]
    refine Alike.bind_same fun op _ => ?_
    by_cases hjoin : name = joinDirective
    · simp only [if_pos hjoin]
      exact Alike.bind_same fun _ _ => (alike_entries rest column).bind fun _ _ hmore =>
        .ok (Expr.SameShapes.append rfl hmore)
    · simp only [if_neg hjoin]
      have here := alike_entry op name column (sameShapes_groupValue value)
        (alike_field value column)
      exact here.bind fun _ _ hhere => (alike_entries rest column).bind fun _ _ hmore =>
        .ok ((Expr.SameShapes.of_rel hhere).append hmore)

end

/-- A tree compiles to an expression of the shape that the struck tree compiles to, or fails with
the same error. -/
theorem alike_compile (d : Dialect) (w : View) (clause : Option Members) :
    Alike (Option.Rel (Expr.SameShape d)) (w.compile (clause.map struckMembers))
      (w.compile clause) := by
  cases clause with
  | none => exact .ok .none
  | some ms => exact (alike_members ms).map fun _ _ h => h.conjunction

end View

end FilterSql
