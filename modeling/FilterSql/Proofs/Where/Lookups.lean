import FilterSql.Proofs.Where.Meaning

/-!
# Keys that compiling looks up

`lookups` are the keys of a tree for which compiling it asks what they stand for.  Those that stand
below operators of another key, as in a group among the operators of a key, can be left out.  With
the usual operators, views that agree on the keys that a tree looks up compile it to the same
(`View.compile_congr`).  With any operators, views that agree on all keys do (`View.Same.compile`).
-/

namespace FilterSql

namespace Lookup

/-- The keys among the operands of a comparison. -/
def operands (value : Json) : List String :=
  match exprOperands value with
  | .ok (_, left, right) => (projection? left).toList ++ (projection? right).toList
  | .error _ => []

/-- The keys that one member looks up, where `group` are those of its value as a group, and `field`
those of its operators. -/
def member (name : String) (value : Json) (group field : List String) : List String :=
  if isBlankMember value || name == joinDirective then []
  else if isGroup name then group
  else if name = exprDirective then operands value
  else name :: field

/-- The keys that an operator looks up in its value, where `group` are those of the value as a
group, and `field` those of the operators in it. -/
def entry (name : String) (value : Json) (group field : List String) : List String :=
  match operatorNamed name with
  | some .and | some .or => group
  | some .not => if isBlankMember value then [] else field
  | _ => []

mutual

/-- The keys that the members of a clause look up.  Keys below operators of another key are left out
unless `below` is set. -/
def members (below : Bool) : Members → List String
  | [] => []
  | (name, value) :: rest =>
    member name value (group below value) (if below then field below value else []) ++
      members below rest

/-- The keys that the value of a group looks up. -/
def group (below : Bool) : Json → List String
  | .obj ms => members below ms
  | .arr xs => arms below xs
  | _ => []

/-- The keys that the elements of a list look up. -/
def arms (below : Bool) : List Json → List String
  | [] => []
  | x :: xs => element below x ++ arms below xs

/-- The keys that an element of a list looks up, which has to be an object to count. -/
def element (below : Bool) : Json → List String
  | .obj ms => members below ms
  | _ => []

/-- The keys that the operators in a value look up. -/
def field (below : Bool) : Json → List String
  | .obj ms => entries below ms
  | _ => []

/-- The keys that operators look up. -/
def entries (below : Bool) : Members → List String
  | [] => []
  | (name, value) :: rest =>
    entry name value (group below value) (field below value) ++ entries below rest

end

end Lookup

/-- The keys that a tree looks up; those below operators of another key only if `below` is set. -/
def lookups (below : Bool) (clause : Option Members) : List String :=
  match clause with
  | some ms => Lookup.members below ms
  | none => []

namespace View

variable {w v : View}

/-- The views have the same for keys. -/
def Agree (w v : View) (keys : List String) : Prop :=
  ∀ key ∈ keys, w.resolveKey key = v.resolveKey key

theorem agree_append {keys more : List String} :
    w.Agree v (keys ++ more) ↔ w.Agree v keys ∧ w.Agree v more := by
  simp only [Agree, List.mem_append, or_imp, forall_and]

/-- An operator looks at its value as a group only if it is one, and at what negation is about only
if it is negation. -/
theorem apply_congr {op : Operator} {c : Condition} {value value' : GroupValue}
    {inner inner' : Unit → Except CompileError (Option Sql.Expr)}
    (hv : op = .and ∨ op = .or → value = value') (hi : op = .not → inner = inner') :
    apply op c value inner = apply op c value' inner' := by
  cases op with
  | and => rw [hv (.inl rfl)]; rfl
  | or => rw [hv (.inr rfl)]; rfl
  | not => rw [hi rfl]; rfl
  | compare | oneOf | between => rfl

theorem operand_congr {j : Json} (h : w.Agree v (projection? j).toList) :
    w.operand j = v.operand j := by
  unfold operand
  cases hj : projection? j with
  | none => rfl
  | some key => exact h key (by simp [hj])

theorem comparison_congr (ops : w.operators = v.operators) {value : Json}
    (h : w.Agree v (Lookup.operands value)) : w.comparison value = v.comparison value := by
  unfold comparison
  unfold Lookup.operands at h
  cases hvalue : exprOperands value with
  | error e => rfl
  | ok operands =>
    obtain ⟨name, left, right⟩ := operands
    rw [hvalue] at h
    obtain ⟨hl, hr⟩ := agree_append.1 h
    dsimp only [bind, Except.bind]
    rw [operand_congr hl, operand_congr hr, ops]

/-- The conditions of a member depend on what it looks up. -/
theorem member_congr (ops : w.operators = v.operators) {name : String} {value : Json}
    {group group' : GroupValue} {field field' : Sql.Expr → Except CompileError (List Sql.Expr)}
    {inGroup inField : List String} (hg : w.Agree v inGroup → group = group')
    (hf : w.Agree v inField → field = field')
    (h : w.Agree v (Lookup.member name value inGroup inField)) :
    w.member name value group field = v.member name value group' field' := by
  unfold member
  unfold Lookup.member at h
  rw [ops]
  split_ifs at h ⊢
  · rfl
  · rw [hg h]
  · rw [comparison_congr ops h]
  · obtain ⟨hname, hfield⟩ := List.forall_mem_cons.1 h
    rw [hname, hf hfield]

theorem equality_congr (hw : w.operators = .standard) (hv : v.operators = .standard)
    (column : Sql.Expr) (value : Json) (group group' : GroupValue) :
    w.equality column value group = v.equality column value group' := by
  unfold equality
  rw [hw, hv]
  cases hop : Operators.standard.get "=" with
  | error e => rfl
  | ok op =>
    cases operatorNamed_of_get hop
    rfl

-- The recursion is that of `View.members` and of the functions that are defined with it.
mutual

theorem members_congr (hw : w.operators = .standard) (hv : v.operators = .standard) :
    ∀ ms : Members, w.Agree v (Lookup.members true ms) → w.members ms = v.members ms
  | [], _ => rfl
  | (name, value) :: rest, h => by
    obtain ⟨hhere, hmore⟩ := agree_append.1 h
    rw [members, members, member_congr (hw.trans hv.symm) (groupValue_congr hw hv value)
      (fun hf => funext (field_congr hw hv value hf)) hhere, members_congr hw hv rest hmore]

theorem memberArms_congr (hw : w.operators = .standard) (hv : v.operators = .standard) :
    ∀ ms : Members, w.Agree v (Lookup.members true ms) → w.memberArms ms = v.memberArms ms
  | [], _ => rfl
  | (name, value) :: rest, h => by
    obtain ⟨hhere, hmore⟩ := agree_append.1 h
    rw [memberArms, memberArms, member_congr (hw.trans hv.symm) (groupValue_congr hw hv value)
      (fun hf => funext (field_congr hw hv value hf)) hhere, memberArms_congr hw hv rest hmore]

theorem elementArms_congr (hw : w.operators = .standard) (hv : v.operators = .standard) :
    ∀ xs : List Json, w.Agree v (Lookup.arms true xs) → w.elementArms xs = v.elementArms xs
  | [], _ => rfl
  | x :: xs, h => by
    obtain ⟨hhere, hmore⟩ := agree_append.1 h
    rw [elementArms, elementArms, element_congr hw hv x hhere, elementArms_congr hw hv xs hmore]

theorem element_congr (hw : w.operators = .standard) (hv : v.operators = .standard) :
    ∀ j : Json, w.Agree v (Lookup.element true j) → w.element j = v.element j
  | .obj ms, h => members_congr hw hv ms h
  | .null, _ | .bool _, _ | .num _, _ | .str _, _ | .arr _, _ => rfl

theorem groupValue_congr (hw : w.operators = .standard) (hv : v.operators = .standard) :
    ∀ j : Json, w.Agree v (Lookup.group true j) → w.groupValue j = v.groupValue j
  | .obj ms, h => by
    rw [groupValue, groupValue, members_congr hw hv ms h, memberArms_congr hw hv ms h]
  | .arr xs, h => by
    rw [groupValue, groupValue, elementArms_congr hw hv xs h]
  | .null, _ | .bool _, _ | .num _, _ | .str _, _ => rfl

theorem field_congr (hw : w.operators = .standard) (hv : v.operators = .standard) :
    ∀ j : Json, w.Agree v (Lookup.field true j) → ∀ column, w.field column j = v.field column j
  | .obj ms, h, column => entries_congr hw hv ms h column
  | .arr _, _, column => equality_congr hw hv column _ _ _
  | .null, _, column | .bool _, _, column | .num _, _, column | .str _, _, column =>
    equality_congr hw hv column _ _ _

theorem entries_congr (hw : w.operators = .standard) (hv : v.operators = .standard) :
    ∀ ms : Members, w.Agree v (Lookup.entries true ms) →
      ∀ column, w.entries column ms = v.entries column ms
  | [], _, _ => rfl
  | (name, value) :: rest, h, column => by
    obtain ⟨hhere, hmore⟩ := agree_append.1 h
    rw [entries, entries, hw, hv, entries_congr hw hv rest hmore column]
    cases hop : Operators.standard.get name with
    | error e => rfl
    | ok op =>
      have named := operatorNamed_of_get hop
      unfold Lookup.entry at hhere
      rw [named] at hhere
      have same : apply op ⟨name, some column, value, none⟩ (w.groupValue value)
          (fun _ => if isBlankMember value then .ok none
            else (w.field column value).map Sql.Expr.conjunction) =
          apply op ⟨name, some column, value, none⟩ (v.groupValue value)
          (fun _ => if isBlankMember value then .ok none
            else (v.field column value).map Sql.Expr.conjunction) := by
        refine apply_congr ?_ ?_
        · rintro (rfl | rfl)
          · exact groupValue_congr hw hv value hhere
          · exact groupValue_congr hw hv value hhere
        · rintro rfl
          dsimp only at hhere
          split_ifs at hhere ⊢
          · rfl
          · rw [field_congr hw hv value hhere column]
      dsimp only [bind, Except.bind]
      rw [same]

end

/-- Compiling a tree depends on what the keys that it looks up stand for, and on nothing else that
may differ between views. -/
theorem compile_congr (hw : w.operators = .standard) (hv : v.operators = .standard)
    {clause : Option Members} (h : w.Agree v (lookups true clause)) :
    w.compile clause = v.compile clause := by
  cases clause with
  | none => rfl
  | some ms =>
    rw [compile, compile, members_congr hw hv ms h]

/-! ## Views that agree on all keys -/

/-- The views have the same operators, and the same for every key. -/
structure Same (w v : View) : Prop where
  operators : w.operators = v.operators
  resolves : ∀ key, w.resolveKey key = v.resolveKey key

namespace Same

theorem agree (h : w.Same v) (keys : List String) : w.Agree v keys := fun key _ => h.resolves key

theorem member (h : w.Same v) {name : String} {value : Json} {group group' : GroupValue}
    {field field' : Sql.Expr → Except CompileError (List Sql.Expr)} (hg : group = group')
    (hf : field = field') : w.member name value group field = v.member name value group' field' :=
  member_congr h.operators (fun _ => hg) (fun _ => hf) (h.agree (Lookup.member name value [] []))

theorem equality (h : w.Same v) (column : Sql.Expr) (value : Json) {group group' : GroupValue}
    (hg : group = group') :
    w.equality column value group = v.equality column value group' := by
  unfold View.equality
  rw [h.operators, hg]

-- The recursion is that of `View.members` and of the functions that are defined with it.
mutual

theorem members (h : w.Same v) : ∀ ms : Members, w.members ms = v.members ms
  | [] => rfl
  | (name, value) :: rest => by
    rw [View.members, View.members, h.member (h.groupValue value) (funext (h.field value)),
      h.members rest]

theorem memberArms (h : w.Same v) : ∀ ms : Members, w.memberArms ms = v.memberArms ms
  | [] => rfl
  | (name, value) :: rest => by
    rw [View.memberArms, View.memberArms, h.member (h.groupValue value) (funext (h.field value)),
      h.memberArms rest]

theorem elementArms (h : w.Same v) : ∀ xs : List Json, w.elementArms xs = v.elementArms xs
  | [] => rfl
  | x :: xs => by rw [View.elementArms, View.elementArms, h.element x, h.elementArms xs]

theorem element (h : w.Same v) : ∀ j : Json, w.element j = v.element j
  | .obj ms => h.members ms
  | .null | .bool _ | .num _ | .str _ | .arr _ => rfl

theorem groupValue (h : w.Same v) : ∀ j : Json, w.groupValue j = v.groupValue j
  | .obj ms => by rw [View.groupValue, View.groupValue, h.members ms, h.memberArms ms]
  | .arr xs => by rw [View.groupValue, View.groupValue, h.elementArms xs]
  | .null | .bool _ | .num _ | .str _ => rfl

theorem field (h : w.Same v) : ∀ (j : Json) (column : Sql.Expr), w.field column j = v.field column j
  | .obj ms, column => h.entries ms column
  | .arr xs, column => h.equality column (.arr xs) (by rw [h.elementArms xs])
  | .null, column | .bool _, column | .num _, column | .str _, column => h.equality column _ rfl

theorem entries (h : w.Same v) : ∀ (ms : Members) (column : Sql.Expr),
    w.entries column ms = v.entries column ms
  | [], _ => rfl
  | (name, value) :: rest, column => by
    rw [View.entries, View.entries, h.operators, h.groupValue value, h.field value column,
      h.entries rest column]

end

/-- Views that have the same operators, and the same for every key, compile all trees alike. -/
theorem compile (h : w.Same v) (clause : Option Members) : w.compile clause = v.compile clause := by
  cases clause with
  | none => rfl
  | some ms => rw [View.compile, View.compile, h.members ms]

end Same

end View

end FilterSql
