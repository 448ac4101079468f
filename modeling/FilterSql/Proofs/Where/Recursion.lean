import FilterSql.Proofs.Where.Members

/-!
# Recursion of conditions

Compiling a clause may compile further clauses: operators take them out of their value, or build
them around it.  `View.level` compiles one clause and hands on the others to `again`; these are
among `View.calls`.  If equality is not bound to negation they weigh less than the clause
(`View.weight_lt_of_mem_calls`).  So the recursion ends, and its result is that of `View.compile`
(`View.recursion_ends`).  Otherwise it need not end (`View.run_circular`).
-/

namespace FilterSql

open Sql

/-! ## Weights -/

mutual

/-- The weight of a value: how many objects, lists and members there are in it. -/
def Json.weight : Json → Nat
  | .obj ms => 1 + Members.weight ms
  | .arr xs => 1 + Json.listWeight xs
  | _ => 0

/-- The weight of the elements of a list. -/
def Json.listWeight : List Json → Nat
  | [] => 0
  | x :: xs => x.weight + Json.listWeight xs

/-- The weight of a clause. -/
def Members.weight : Members → Nat
  | [] => 0
  | (_, value) :: rest => 1 + value.weight + Members.weight rest

end

theorem Json.weight_obj (ms : Members) : (Json.obj ms).weight = 1 + Members.weight ms := rfl

theorem Json.weight_arr (xs : List Json) : (Json.arr xs).weight = 1 + Json.listWeight xs := rfl

theorem Members.weight_singleton (name : String) (value : Json) :
    Members.weight [(name, value)] = 1 + value.weight := rfl

theorem weight_le_of_mem_list {xs : List Json} {x : Json} (h : x ∈ xs) :
    x.weight ≤ Json.listWeight xs := by
  induction xs with
  | nil => cases h
  | cons y ys ih =>
    rw [Json.listWeight]
    obtain rfl | h := List.mem_cons.1 h
    · omega
    · have := ih h
      omega

theorem weight_le_of_mem {ms : Members} {name : String} {value : Json} (h : (name, value) ∈ ms) :
    1 + value.weight ≤ Members.weight ms := by
  induction ms with
  | nil => cases h
  | cons m ms ih =>
    obtain ⟨name', value'⟩ := m
    rw [Members.weight]
    obtain h | h := List.mem_cons.1 h
    · cases h
      omega
    · have := ih h
      omega

/-! ## One clause -/

/-- What steps come to, if they do not go too deep. -/
abbrev Descent := ExceptT CompileError Option

/-- What comes to an end here. -/
def Descent.done {α : Type} (x : Except CompileError α) : Descent α := ExceptT.mk (some x)

/-- Steps that go too deep. -/
def Descent.tooDeep {α : Type} : Descent α := ExceptT.mk none

/-- Steps that come to an end here, one after the other. -/
theorem Descent.done_bind {α β : Type} {x : Except CompileError α} {f : α → Descent β}
    {g : α → Except CompileError β} (h : ∀ a, x = .ok a → f a = .done (g a)) :
    (Descent.done x >>= f) = .done (x >>= g) := by
  cases x with
  | ok a => exact h a rfl
  | error e => rfl

theorem Descent.done_map {α β : Type} (x : Except CompileError α) (f : α → β) :
    (do return f (← Descent.done x)) = Descent.done (x.map f) := by
  cases x <;> rfl

theorem Descent.done_both {α β : Type} (x : Except CompileError α) (f : α → List β)
    (y : Except CompileError (List β)) :
    (do
      let here ← Descent.done x
      let more ← Descent.done y
      return f here ++ more) = Descent.done (both (x.map f) y) := by
  cases x with
  | error e => rfl
  | ok here => cases y <;> rfl

/-- The clauses that a group makes of its value: the objects of a list, and the members of a
mapping, each by itself. -/
def alternatives : Json → List Members
  | .arr xs => xs.filterMap Json.obj?
  | .obj ms => ms.map fun m => [m]
  | _ => []

namespace View

section

variable (again : Members → Descent (Option Expr))

/-- The arms that clauses make; one that comes to nothing is left out. -/
def armsOf : List Members → Descent (List Expr)
  | [] => pure []
  | c :: cs => do
    let here ← again c
    let more ← armsOf cs
    return here.toList ++ more

/-- Arms with an operator between them. -/
def logical (join : List Expr → Expr) (value : Json) : Descent (Option Expr) := do
  return GroupValue.group join (← armsOf again (alternatives value))

/-- All of a value: a mapping is one clause. -/
def together : Json → Descent (Option Expr)
  | .obj clause => again clause
  | value => logical again .and value

/-- What negation negates: below a key, that key with the operand as its value. -/
def negated (key : Option String) (value : Json) : Descent (Option Expr) :=
  match key with
  | some key => again [(key, value)]
  | none => together again value

/-- Uses an operator, on the column of a key or as a group. -/
def handle (op : Operator) (key : Option String) (c : Condition) : Descent (Option Expr) :=
  match op with
  | .compare op => .done ((c.comparison op).map some)
  | .oneOf negated => .done ((c.membership negated).map some)
  | .between => .done (c.range.map some)
  | .not => do
    Descent.done c.refuseOperand
    return (← negated again key c.value).map .not
  | .and => do
    Descent.done c.refuseOperand
    together again c.value
  | .or => do
    Descent.done c.refuseOperand
    logical again .or c.value

variable (w : View)

/-- Uses the operator of a name. -/
def use (key : Option String) (c : Condition) : Descent (Option Expr) := do
  handle again (← Descent.done (w.operators.get c.name)) key c

/-- The comparison of two operands. -/
def comparisonAt (value : Json) : Descent (Option Expr) := do
  let (name, left, right) ← Descent.done (exprOperands value)
  let leftExpr ← Descent.done (w.operand left)
  let rightExpr ← Descent.done (w.operand right)
  match leftExpr, rightExpr with
  | some l, some r => w.use again none ⟨name, some l, right, some r⟩
  | _, _ => return none

/-- The conditions of operators on the column of a key. -/
def entriesAt (key : String) (column : Expr) : Members → Descent (List Expr)
  | [] => pure []
  | (name, value) :: rest => do
    let here ← w.use again (some key) ⟨name, some column, value, none⟩
    let more ← entriesAt key column rest
    return here.toList ++ more

/-- The conditions that a value puts on the column of a key. -/
def fieldAt (key : String) (column : Expr) : Json → Descent (List Expr)
  | .obj ops => w.entriesAt again key column ops
  | value => do return (← w.use again (some key) ⟨"=", some column, value, none⟩).toList

/-- The conditions of one member. -/
def memberAt (name : String) (value : Json) : Descent (List Expr) :=
  if isBlankMember value || name == joinDirective then pure []
  else if isGroup name then do return (← w.use again none ⟨name, none, value, none⟩).toList
  else if name = exprDirective then do return (← w.comparisonAt again value).toList
  else do
    match ← Descent.done (w.resolveKey name) with
    | some column => w.fieldAt again name column value
    | none => return []

/-- The conditions of members. -/
def membersAt : Members → Descent (List Expr)
  | [] => pure []
  | (name, value) :: rest => do
    let here ← w.memberAt again name value
    let more ← membersAt rest
    return here ++ more

/-- Compiles one clause, and further clauses with `again`. -/
def level (clause : Members) : Descent (Option Expr) := do
  return Expr.conjunction (← w.membersAt again clause)

end

/-- Compiles a clause, and further clauses down to a depth. -/
def run (w : View) : (depth : Nat) → Members → Descent (Option Expr)
  | 0, _ => .tooDeep
  | depth + 1, clause => w.level (w.run depth) clause

/-! ## Further clauses -/

/-- The clauses of a value that is taken together. -/
def parts : Json → List Members
  | .obj clause => [clause]
  | value => alternatives value

/-- The clauses that an operator hands on. -/
def handed (op : Operator) (key : Option String) (value : Json) : List Members :=
  match op, key with
  | .not, some key => [[(key, value)]]
  | .not, none => parts value
  | .and, _ => parts value
  | .or, _ => alternatives value
  | _, _ => []

variable (w : View)

/-- The clauses that the operator of a name hands on. -/
def handedBy (key : Option String) (name : String) (value : Json) : List Members :=
  match w.operators.get name with
  | .ok op => handed op key value
  | .error _ => []

/-- The clauses that the value of a key hands on. -/
def fieldCalls (key : String) : Json → List Members
  | .obj ops => ops.flatMap fun (name, value) => w.handedBy (some key) name value
  | value => w.handedBy (some key) "=" value

/-- The clauses that a member hands on. -/
def memberCalls (name : String) (value : Json) : List Members :=
  if isBlankMember value || name == joinDirective then []
  else if isGroup name then w.handedBy none name value
  else if name = exprDirective then []
  else
    match w.resolveKey name with
    | .ok (some _) => w.fieldCalls name value
    | _ => []

/-- The clauses that a clause hands on. -/
def calls (clause : Members) : List Members :=
  clause.flatMap fun (name, value) => w.memberCalls name value

/-! ### They weigh less -/

section

variable {w : View}

theorem weight_lt_of_mem_alternatives {value : Json} {c : Members} (h : c ∈ alternatives value) :
    c.weight < value.weight := by
  cases value with
  | arr xs =>
    obtain ⟨x, hx, hc⟩ := List.mem_filterMap.1 h
    have listed := weight_le_of_mem_list hx
    cases x with
    | obj ms =>
      obtain rfl := Option.some.inj hc
      rw [Json.weight_obj] at listed
      rw [Json.weight_arr]
      omega
    | _ => cases hc
  | obj ms =>
    obtain ⟨⟨name, value⟩, hm, rfl⟩ := List.mem_map.1 h
    have listed := weight_le_of_mem hm
    rw [Json.weight_obj, Members.weight_singleton]
    omega
  | _ => cases h

theorem weight_lt_of_mem_parts {value : Json} {c : Members} (h : c ∈ parts value) :
    c.weight < value.weight := by
  cases value with
  | obj clause =>
    obtain rfl := List.mem_singleton.1 h
    rw [Json.weight_obj]
    omega
  | _ => exact weight_lt_of_mem_alternatives h

/-- An operator other than negation below a key hands on clauses inside its value. -/
theorem weight_lt_of_mem_handed {op : Operator} {key : Option String} {value : Json} {c : Members}
    (hop : op = .not → key = none) (h : c ∈ handed op key value) : c.weight < value.weight := by
  cases op with
  | not =>
    obtain rfl := hop rfl
    exact weight_lt_of_mem_parts h
  | and => exact weight_lt_of_mem_parts h
  | or => exact weight_lt_of_mem_alternatives h
  | compare | oneOf | between => cases h

/-- Negation below a key puts the key around its value, which is one member more. -/
theorem weight_le_of_mem_handed {op : Operator} {key : Option String} {value : Json} {c : Members}
    (h : c ∈ handed op key value) : c.weight ≤ 1 + value.weight := by
  by_cases hop : op = .not → key = none
  · have := weight_lt_of_mem_handed hop h
    omega
  · obtain ⟨rfl, hkey⟩ := Classical.not_imp.1 hop
    obtain ⟨key, rfl⟩ := Option.ne_none_iff_exists'.1 hkey
    obtain rfl := List.mem_singleton.1 h
    exact Nat.le_of_eq (Members.weight_singleton key value)

theorem mem_handedBy {key : Option String} {name : String} {value : Json} {c : Members} :
    c ∈ w.handedBy key name value ↔
      ∃ op, w.operators.get name = .ok op ∧ c ∈ handed op key value := by
  unfold handedBy
  cases w.operators.get name <;> simp

theorem weight_lt_of_mem_fieldCalls (heq : w.operators.get "=" ≠ .ok .not) {key : String}
    {value : Json} {c : Members} (h : c ∈ w.fieldCalls key value) :
    c.weight < 1 + value.weight := by
  have equality (h : c ∈ w.handedBy (some key) "=" value) : c.weight < 1 + value.weight := by
    obtain ⟨op, hop, hc⟩ := mem_handedBy.1 h
    have := weight_lt_of_mem_handed (fun hnot => absurd (hnot ▸ hop) heq) hc
    omega
  cases value with
  | obj ops =>
    obtain ⟨⟨name, value⟩, hm, h⟩ := List.mem_flatMap.1 h
    obtain ⟨op, -, hc⟩ := mem_handedBy.1 h
    have here := weight_le_of_mem_handed hc
    have listed := weight_le_of_mem hm
    rw [Json.weight_obj]
    omega
  | _ => exact equality h

theorem weight_lt_of_mem_memberCalls (heq : w.operators.get "=" ≠ .ok .not) {name : String}
    {value : Json} {c : Members} (h : c ∈ w.memberCalls name value) :
    c.weight < 1 + value.weight := by
  unfold memberCalls at h
  split_ifs at h
  · cases h
  · obtain ⟨op, -, hc⟩ := mem_handedBy.1 h
    have := weight_lt_of_mem_handed (fun _ => rfl) hc
    omega
  · cases h
  · cases hresolve : w.resolveKey name with
    | error e =>
      rw [hresolve] at h
      cases h
    | ok column =>
      rw [hresolve] at h
      cases column with
      | none => cases h
      | some column => exact weight_lt_of_mem_fieldCalls heq h

/-- A clause hands on clauses that weigh less, unless equality is bound to negation. -/
theorem weight_lt_of_mem_calls (heq : w.operators.get "=" ≠ .ok .not) {clause c : Members}
    (h : c ∈ w.calls clause) : c.weight < clause.weight := by
  obtain ⟨⟨name, value⟩, hm, hc⟩ := List.mem_flatMap.1 h
  have here := weight_lt_of_mem_memberCalls heq hc
  have listed := weight_le_of_mem hm
  omega

end

/-! ### They are all that is handed on -/

section

variable {w : View} {again again' : Members → Descent (Option Expr)}

theorem armsOf_congr {cs : List Members} (h : ∀ c ∈ cs, again c = again' c) :
    armsOf again cs = armsOf again' cs := by
  induction cs with
  | nil => rfl
  | cons c cs ih =>
    obtain ⟨hc, hcs⟩ := List.forall_mem_cons.1 h
    rw [armsOf, armsOf, hc, ih hcs]

theorem logical_congr (join : List Expr → Expr) {value : Json}
    (h : ∀ c ∈ alternatives value, again c = again' c) :
    logical again join value = logical again' join value := by
  rw [logical, logical, armsOf_congr h]

theorem together_congr {value : Json} (h : ∀ c ∈ parts value, again c = again' c) :
    together again value = together again' value := by
  cases value with
  | obj clause => exact h clause (List.mem_singleton_self _)
  | _ => exact logical_congr .and h

theorem handle_congr {op : Operator} {key : Option String} {c : Condition}
    (h : ∀ clause ∈ handed op key c.value, again clause = again' clause) :
    handle again op key c = handle again' op key c := by
  cases op with
  | not =>
    cases key with
    | some key => rw [handle, handle, negated, negated, h _ (List.mem_singleton_self _)]
    | none => rw [handle, handle, negated, negated, together_congr h]
  | and => rw [handle, handle, together_congr h]
  | or => rw [handle, handle, logical_congr .or h]
  | compare | oneOf | between => rfl

theorem use_congr {key : Option String} {c : Condition}
    (h : ∀ clause ∈ w.handedBy key c.name c.value, again clause = again' clause) :
    w.use again key c = w.use again' key c := by
  unfold use
  unfold handedBy at h
  cases hop : w.operators.get c.name with
  | error e => rfl
  | ok op =>
    rw [hop] at h
    exact handle_congr h

/-- Groups and negation refuse operands that are resolved already. -/
theorem handle_operand (op : Operator) (name : String) (column operand : Expr) (value : Json) :
    handle again op none ⟨name, some column, value, some operand⟩ =
      .done (apply op ⟨name, some column, value, some operand⟩ .other fun _ => .ok none) := by
  cases op <;> rfl

theorem comparisonAt_eq (value : Json) :
    w.comparisonAt again value = .done (w.comparison value) := by
  refine Descent.done_bind fun ⟨name, left, right⟩ _ => ?_
  refine Descent.done_bind fun l _ => Descent.done_bind fun r _ => ?_
  cases l with
  | none => rfl
  | some l =>
    cases r with
    | none => rfl
    | some r => exact Descent.done_bind fun op _ => handle_operand op name l r right

theorem entriesAt_congr {key : String} (column : Expr) {ops : Members}
    (h : ∀ c ∈ w.fieldCalls key (.obj ops), again c = again' c) :
    w.entriesAt again key column ops = w.entriesAt again' key column ops := by
  induction ops with
  | nil => rfl
  | cons m ops ih =>
    obtain ⟨name, value⟩ := m
    obtain ⟨hhere, hmore⟩ := List.forall_mem_append.1 h
    rw [entriesAt, entriesAt, ih hmore, use_congr hhere]

theorem fieldAt_congr {key : String} (column : Expr) {value : Json}
    (h : ∀ c ∈ w.fieldCalls key value, again c = again' c) :
    w.fieldAt again key column value = w.fieldAt again' key column value := by
  have equality (h : ∀ c ∈ w.handedBy (some key) "=" value, again c = again' c) :
      (do return (← w.use again (some key) ⟨"=", some column, value, none⟩).toList :
        Descent (List Expr)) =
      (do return (← w.use again' (some key) ⟨"=", some column, value, none⟩).toList) := by
    rw [use_congr h]
  cases value with
  | obj ops => exact entriesAt_congr column h
  | _ => exact equality h

theorem memberAt_congr {name : String} {value : Json}
    (h : ∀ c ∈ w.memberCalls name value, again c = again' c) :
    w.memberAt again name value = w.memberAt again' name value := by
  unfold memberAt
  unfold memberCalls at h
  split_ifs at h ⊢
  · rfl
  · rw [use_congr h]
  · rw [comparisonAt_eq, comparisonAt_eq]
  · cases hresolve : w.resolveKey name with
    | error e => rfl
    | ok column =>
      rw [hresolve] at h
      cases column with
      | none => rfl
      | some column => exact fieldAt_congr column h

theorem membersAt_congr {clause : Members} (h : ∀ c ∈ w.calls clause, again c = again' c) :
    w.membersAt again clause = w.membersAt again' clause := by
  induction clause with
  | nil => rfl
  | cons m rest ih =>
    obtain ⟨name, value⟩ := m
    obtain ⟨hhere, hmore⟩ := List.forall_mem_append.1 h
    rw [membersAt, membersAt, memberAt_congr hhere, ih hmore]

/-- What compiling a clause comes to depends on the clauses that it hands on. -/
theorem level_congr {clause : Members} (h : ∀ c ∈ w.calls clause, again c = again' c) :
    w.level again clause = w.level again' clause := by
  rw [level, level, membersAt_congr h]

end

/-! ## The compiled tree -/

section

variable {w : View}

/-- A clause with what it compiles to. -/
def settled (w : View) (clause : Members) : Descent (Option Expr) := .done (w.compile (some clause))

theorem armsOf_settled_cons (c : Members) (cs : List Members)
    {more : Except CompileError (List Expr)} (h : armsOf w.settled cs = .done more) :
    armsOf w.settled (c :: cs) = .done (both ((w.members c).map arm) more) := by
  have here : (w.compile (some c)).map Option.toList = (w.members c).map arm := by
    rw [compile]
    cases w.members c <;> rfl
  rw [armsOf, h, settled, Descent.done_both, here]

theorem armsOf_settled_singletons (ms : Members) :
    armsOf w.settled (ms.map fun m => [m]) = .done (w.memberArms ms) := by
  induction ms with
  | nil => rfl
  | cons m ms ih =>
    rw [List.map_cons, armsOf_settled_cons _ _ ih, members_singleton, memberArms_cons]

theorem armsOf_settled_elements (xs : List Json) :
    armsOf w.settled (xs.filterMap Json.obj?) = .done (w.elementArms xs) := by
  induction xs with
  | nil => rfl
  | cons x xs ih =>
    rw [elementArms_cons]
    cases x with
    | obj ms => exact armsOf_settled_cons ms _ ih
    | _ =>
      rw [element]
      · exact ih.trans (congrArg Descent.done (nil_both _).symm)
      · intro ms hms
        cases hms

theorem together_settled (value : Json) :
    together w.settled value = .done (w.groupValue value).all := by
  cases value with
  | obj ms => rfl
  | arr xs =>
    show logical w.settled .and (.arr xs) = _
    rw [logical, alternatives, armsOf_settled_elements, Descent.done_map]
    rfl
  | _ => rfl

theorem logical_settled (value : Json) :
    logical w.settled .or value = .done (w.groupValue value).any := by
  cases value with
  | obj ms =>
    rw [logical, alternatives, armsOf_settled_singletons, Descent.done_map]
    rfl
  | arr xs =>
    rw [logical, alternatives, armsOf_settled_elements, Descent.done_map]
    rfl
  | _ => rfl

theorem handle_settled (op : Operator) (key : Option String) (c : Condition)
    {inner : Unit → Except CompileError (Option Expr)}
    (h : op = .not → negated w.settled key c.value = .done (inner ())) :
    handle w.settled op key c = .done (apply op c (w.groupValue c.value) inner) := by
  cases op with
  | not =>
    rw [handle, h rfl]
    exact Descent.done_bind fun _ _ => Descent.done_bind fun _ _ => rfl
  | and => exact Descent.done_bind fun _ _ => together_settled c.value
  | or => exact Descent.done_bind fun _ _ => logical_settled c.value
  | compare | oneOf | between => rfl

theorem use_settled (key : Option String) (c : Condition)
    {inner : Unit → Except CompileError (Option Expr)}
    (h : w.operators.get c.name = .ok .not → negated w.settled key c.value = .done (inner ())) :
    w.use w.settled key c = .done (do
      apply (← w.operators.get c.name) c (w.groupValue c.value) inner) :=
  Descent.done_bind fun op hop => handle_settled op key c fun hnot => h (hnot ▸ hop)

/-- The key stands for a column. -/
structure IsColumn (w : View) (key : String) (column : Expr) : Prop where
  group : ¬isGroup key = true
  join : (key == joinDirective) = false
  expr : key ≠ exprDirective
  resolves : w.resolveKey key = .ok (some column)

variable {key : String} {column : Expr}

/-- A clause of one key has the conditions of its value, unless the value is blank. -/
theorem IsColumn.compile (hkey : w.IsColumn key column) (value : Json) :
    w.compile (some [(key, value)]) =
      if isBlankMember value then .ok none else (w.field column value).map Expr.conjunction := by
  rw [View.compile, members_singleton, ofMember, member, hkey.join, Bool.or_false]
  split_ifs with hblank hgroup hexpr
  · rfl
  · exact absurd hgroup hkey.group
  · exact absurd hexpr hkey.expr
  · rw [hkey.resolves]
    rfl

theorem entriesAt_settled (hkey : w.IsColumn key column) (ops : Members) :
    w.entriesAt w.settled key column ops = .done (w.entries column ops) := by
  induction ops with
  | nil => rfl
  | cons m ops ih =>
    obtain ⟨name, value⟩ := m
    have used : w.use w.settled (some key) ⟨name, some column, value, none⟩ =
        .done (w.ofEntry column (name, value)) :=
      use_settled _ _ fun _ => congrArg Descent.done (hkey.compile value)
    rw [entriesAt, ih, used, Descent.done_both, entries_cons]

theorem fieldAt_settled (heq : w.operators.get "=" ≠ .ok .not) (hkey : w.IsColumn key column)
    (value : Json) : w.fieldAt w.settled key column value = .done (w.field column value) := by
  have equality (value : Json) :
      (do return (← w.use w.settled (some key) ⟨"=", some column, value, none⟩).toList :
        Descent (List Expr)) = .done (w.equality column value (w.groupValue value)) := by
    have used : w.use w.settled (some key) ⟨"=", some column, value, none⟩ = .done (do
        apply (← w.operators.get "=") ⟨"=", some column, value, none⟩ (w.groupValue value)
          fun _ => .error .circularEquality) :=
      use_settled _ _ fun hnot => absurd hnot heq
    rw [used, View.equality]
    refine (Descent.done_bind fun here _ => ?_).trans (congrArg Descent.done (bind_assoc ..))
    rfl
  cases value with
  | obj ops => exact entriesAt_settled hkey ops
  | _ => exact equality _

theorem memberAt_settled (heq : w.operators.get "=" ≠ .ok .not) (name : String) (value : Json) :
    w.memberAt w.settled name value = .done (w.ofMember (name, value)) := by
  rw [memberAt, ofMember, member]
  split_ifs with hblank hgroup hexpr
  · rfl
  · have used : w.use w.settled none ⟨name, none, value, none⟩ = .done (do
        apply (← w.operators.get name) ⟨name, none, value, none⟩ (w.groupValue value)
          fun _ => (w.groupValue value).all) :=
      use_settled none _ fun _ => together_settled value
    rw [used]
    refine (Descent.done_bind fun here _ => ?_).trans (congrArg Descent.done (bind_assoc ..))
    rfl
  · rw [comparisonAt_eq, Descent.done_map]
  · cases hresolve : w.resolveKey name with
    | error e => rfl
    | ok column =>
      cases column with
      | none => rfl
      | some column =>
        have hjoin : (name == joinDirective) = false := by
          cases h : name == joinDirective with
          | false => rfl
          | true => exact absurd (by rw [h, Bool.or_true]) hblank
        exact fieldAt_settled heq ⟨hgroup, hjoin, hexpr, hresolve⟩ value

theorem membersAt_settled (heq : w.operators.get "=" ≠ .ok .not) (clause : Members) :
    w.membersAt w.settled clause = .done (w.members clause) := by
  induction clause with
  | nil => rfl
  | cons m rest ih =>
    obtain ⟨name, value⟩ := m
    rw [membersAt, memberAt_settled heq, ih, members_cons]
    exact Descent.done_bind fun here _ => Descent.done_map (w.members rest) (here ++ ·)

/-- What trees compile to is what the recursion is about. -/
theorem level_settled (heq : w.operators.get "=" ≠ .ok .not) (clause : Members) :
    w.level w.settled clause = w.settled clause := by
  rw [level, membersAt_settled heq, Descent.done_map]
  rfl

/-- Within a depth above its weight, compiling a clause comes to what it compiles to. -/
theorem run_eq_settled (heq : w.operators.get "=" ≠ .ok .not) {clause : Members} {depth : Nat}
    (h : clause.weight < depth) : w.run depth clause = w.settled clause := by
  induction depth generalizing clause with
  | zero => cases h
  | succ depth ih =>
    have deeper : ∀ c ∈ w.calls clause, w.run depth c = w.settled c := by
      intro c hc
      apply ih
      have := weight_lt_of_mem_calls heq hc
      omega
    rw [run, level_congr deeper, level_settled heq]

/-- Unless equality is bound to negation, every further clause weighs less, compiling a clause only
depends on these, and so it ends: within a depth above the weight of the clause it comes to what
the clause compiles to. -/
theorem recursion_ends (heq : w.operators.get "=" ≠ .ok .not) (clause : Members) :
    (∀ c ∈ w.calls clause, c.weight < clause.weight) ∧
    (∀ again again' : Members → Descent (Option Expr),
      (∀ c ∈ w.calls clause, again c = again' c) → w.level again clause = w.level again' clause) ∧
    ∀ depth, clause.weight < depth → w.run depth clause = .done (w.compile (some clause)) :=
  ⟨fun _ => weight_lt_of_mem_calls heq, fun _ _ => level_congr, fun _ => run_eq_settled heq⟩

/-- Notes, whose conditions know equality and negation by other names. -/
def notes : View where
  registry := .empty
  root := { name := "Note", properties := [{ name := "title" }] }
  session := {}
  operators := (Operators.standard.bind "=" .and).bind "without" .not

/-- Negation below a key, around a list of which equality makes a group. -/
def notesClause : Members :=
  [("title", .obj [("without", .arr [.obj [("title", .obj [("eq", .str "a")])]])])]

theorem recursion_ends_notes : notes.operators.get "=" ≠ .ok .not ∧
    (notes.calls notesClause).map Members.weight = [6] ∧ notesClause.weight = 8 ∧
    (∀ c ∈ notes.calls notesClause, c.weight < notesClause.weight) ∧
    (∀ again again' : Members → Descent (Option Expr),
      (∀ c ∈ notes.calls notesClause, again c = again' c) →
        notes.level again notesClause = notes.level again' notesClause) ∧
    notes.run 9 notesClause = .done (notes.compile (some notesClause)) ∧
    (notes.compile (some notesClause)).map (Option.map fun e => (e.render .sqlite).text) =
      .ok (some "not (((\"title\" = ?)))") := by
  have heq : notes.operators.get "=" = .ok .and := by decide +kernel
  have hne : notes.operators.get "=" ≠ .ok .not := by
    rw [heq]
    intro h
    cases h
  obtain ⟨lighter, congruent, ends⟩ := recursion_ends hne notesClause
  exact ⟨hne, by decide +kernel, rfl, lighter, congruent, ends 9 (by decide), by decide +kernel⟩

/-- If equality is bound to negation, the condition that a key equals a value hands itself on. -/
theorem run_circular (heq : w.operators.get "=" = .ok .not) (hkey : w.IsColumn key column)
    {value : Json} (hblank : isBlankMember value = false) (hvalue : value.obj? = none)
    (depth : Nat) : w.run depth [(key, value)] = .tooDeep := by
  induction depth with
  | zero => rfl
  | succ depth ih =>
    have used : w.use (w.run depth) (some key) ⟨"=", some column, value, none⟩ = .tooDeep := by
      rw [use, heq]
      show (do return (← w.run depth [(key, value)]).map Expr.not) = Descent.tooDeep
      rw [ih]
      rfl
    have field : w.fieldAt (w.run depth) key column value = .tooDeep := by
      cases value with
      | obj ops => cases hvalue
      | _ =>
        rw [fieldAt, used]
        · rfl
        · intro ops hops
          cases hops
    rw [run, level, membersAt, memberAt, hblank, hkey.join, Bool.or_false, if_neg (by decide),
      if_neg hkey.group, if_neg hkey.expr, hkey.resolves]
    show (do
      let here ← w.fieldAt (w.run depth) key column value
      let more ← w.membersAt (w.run depth) []
      return here ++ more) >>= _ = Descent.tooDeep
    rw [field]
    rfl

end

end View

end FilterSql
