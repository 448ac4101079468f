import FilterSql.Proofs.Outcome
import FilterSql.Where.Compile

/-!
# One member after the other

The functions that compile a tree go through members and elements from the first to the last.  What
they come to is what the first one comes to, `both` with what the others come to.
-/

namespace FilterSql

open Sql

namespace View

variable {w : View}

/-- The conditions of one member. -/
def ofMember (w : View) (m : String × Json) : Except CompileError (List Expr) :=
  w.member m.1 m.2 (w.groupValue m.2) fun column => w.field column m.2

/-- The arm that conditions make. -/
def arm (here : List Expr) : List Expr := (Expr.conjunction here).toList

theorem members_cons (m : String × Json) (rest : Members) :
    w.members (m :: rest) = both (w.ofMember m) (w.members rest) := by
  rw [members]
  rfl

theorem memberArms_cons (m : String × Json) (rest : Members) :
    w.memberArms (m :: rest) = both ((w.ofMember m).map arm) (w.memberArms rest) := by
  rw [memberArms, ofMember]
  cases w.member m.1 m.2 (w.groupValue m.2) fun column => w.field column m.2 <;> rfl

theorem elementArms_cons (x : Json) (xs : List Json) :
    w.elementArms (x :: xs) = both ((w.element x).map arm) (w.elementArms xs) := by
  rw [elementArms]
  cases w.element x <;> rfl

theorem members_append (before after : Members) :
    w.members (before ++ after) = both (w.members before) (w.members after) := by
  induction before with
  | nil => exact (nil_both _).symm
  | cons m before ih => rw [List.cons_append, members_cons, ih, members_cons, both_assoc]

theorem memberArms_append (before after : Members) :
    w.memberArms (before ++ after) = both (w.memberArms before) (w.memberArms after) := by
  induction before with
  | nil => exact (nil_both _).symm
  | cons m before ih => rw [List.cons_append, memberArms_cons, ih, memberArms_cons, both_assoc]

theorem elementArms_append (before after : List Json) :
    w.elementArms (before ++ after) = both (w.elementArms before) (w.elementArms after) := by
  induction before with
  | nil => exact (nil_both _).symm
  | cons x before ih => rw [List.cons_append, elementArms_cons, ih, elementArms_cons, both_assoc]

theorem members_singleton (m : String × Json) : w.members [m] = w.ofMember m := by
  rw [members_cons]
  exact both_nil _

theorem memberArms_singleton (m : String × Json) : w.memberArms [m] = (w.ofMember m).map arm := by
  rw [memberArms_cons]
  exact both_nil _

/-- The members of a mapping, each as an element of its own, have the same arms. -/
theorem elementArms_singletons (ms : Members) :
    w.elementArms (ms.map fun m => .obj [m]) = w.memberArms ms := by
  induction ms with
  | nil => rfl
  | cons m ms ih =>
    have here : w.element (.obj [m]) = w.ofMember m := members_singleton m
    rw [List.map_cons, elementArms_cons, memberArms_cons, here, ih]

/-- The condition of one operator on a column. -/
def ofEntry (w : View) (column : Expr) (m : String × Json) : Except CompileError (Option Expr) := do
  let op ← w.operators.get m.1
  apply op ⟨m.1, some column, m.2, none⟩ (w.groupValue m.2) fun _ =>
    if isBlankMember m.2 then .ok none else (w.field column m.2).map Expr.conjunction

theorem entries_cons (column : Expr) (m : String × Json) (rest : Members) :
    w.entries column (m :: rest) =
      both ((w.ofEntry column m).map Option.toList) (w.entries column rest) := by
  rw [entries, ofEntry]
  cases w.operators.get m.1 with
  | error e => rfl
  | ok op =>
    dsimp only [bind, Except.bind]
    cases apply op ⟨m.1, some column, m.2, none⟩ (w.groupValue m.2) _ <;> rfl

theorem entries_append (column : Expr) (before after : Members) :
    w.entries column (before ++ after) =
      both (w.entries column before) (w.entries column after) := by
  induction before with
  | nil => exact (nil_both _).symm
  | cons m before ih => rw [List.cons_append, entries_cons, ih, entries_cons, both_assoc]

theorem entries_singleton (column : Expr) (m : String × Json) :
    w.entries column [m] = (w.ofEntry column m).map Option.toList := by
  rw [entries_cons]
  exact both_nil _

end View

end FilterSql
