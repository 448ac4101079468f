import FilterSql.Proofs.Plan.Mentions
import FilterSql.Proofs.Where.Lookups

/-!
# Blank members

`Members.compact` leaves out the members of a tree that count as absent: those with an empty text or
an empty list, in every clause of the tree.  They add nothing to its condition
(`View.compile_compact`).  The keys that the tree mentions are another matter, since a blank member
mentions its name like any other: `FilterKey.mentions_compact` says which mentions may be
gone.
-/

namespace FilterSql

/-! ## Leaving out -/

/-- What becomes of the value of a member, where `group` is the compact value of a group, and
`field` that of a key.  The operators of a key count only if `below` is set. -/
def compactValue (below : Bool) (name : String) (value group field : Json) : Json :=
  if isGroup name then group else if below && name != exprDirective then field else value

mutual

/-- A clause without its blank members, nor those of the clauses in its groups.  Clauses in groups
that stand among the operators of a key count only if `below` is set. -/
def Members.compact (below : Bool) : Members → Members
  | [] => []
  | (name, value) :: rest =>
    if isBlankMember value then Members.compact below rest
    else (name, compactValue below name value (Json.compactGroup below value)
      (Json.compactField below value)) :: Members.compact below rest

/-- The value of a group without the blank members of its clauses. -/
def Json.compactGroup (below : Bool) : Json → Json
  | .obj ms => .obj (Members.compact below ms)
  | .arr xs => .arr (Json.compactArms below xs)
  | j => j

/-- The elements of a group, each a clause if it is an object. -/
def Json.compactArms (below : Bool) : List Json → List Json
  | [] => []
  | x :: xs => Json.compactArm below x :: Json.compactArms below xs

/-- An element of a group. -/
def Json.compactArm (below : Bool) : Json → Json
  | .obj ms => .obj (Members.compact below ms)
  | j => j

/-- The operators in the value of a key, with their groups compact. -/
def Json.compactField (below : Bool) : Json → Json
  | .obj ms => .obj (Members.compactEntries below ms)
  | j => j

/-- Operators, all of which stay, with their groups compact. -/
def Members.compactEntries (below : Bool) : Members → Members
  | [] => []
  | (name, value) :: rest =>
    (name, match operatorNamed name with
      | some .and | some .or => Json.compactGroup below value
      | some .not => Json.compactField below value
      | _ => value) :: Members.compactEntries below rest

end

mutual

/-- The blank members of a clause and of the clauses in its groups. -/
def Members.blanks : Members → Members
  | [] => []
  | (name, value) :: rest =>
    (if isBlankMember value then [(name, value)]
      else if isGroup name then Json.groupBlanks value else []) ++ Members.blanks rest

/-- The blank members of the clauses in the value of a group. -/
def Json.groupBlanks : Json → Members
  | .obj ms => Members.blanks ms
  | .arr xs => Json.armBlanks xs
  | _ => []

/-- The blank members of the elements of a group. -/
def Json.armBlanks : List Json → Members
  | [] => []
  | x :: xs => Json.elementBlanks x ++ Json.armBlanks xs

/-- The blank members of an element of a group. -/
def Json.elementBlanks : Json → Members
  | .obj ms => Members.blanks ms
  | _ => []

end

section

variable {below : Bool}

@[simp] theorem isBlankMember_compactGroup (j : Json) :
    isBlankMember (j.compactGroup below) = isBlankMember j := by
  cases j with
  | arr xs => cases xs <;> rfl
  | _ => rfl

@[simp] theorem isBlankMember_compactField (j : Json) :
    isBlankMember (j.compactField below) = isBlankMember j := by
  cases j <;> rfl

end

/-! ## Conditions -/

namespace View

variable {w : View} {below : Bool}

/-- An operator without a column does not look into the value itself. -/
theorem apply_compactGroup (op : Operator) (name : String) (j : Json) (value : GroupValue)
    (negated : Unit → Except CompileError (Option Sql.Expr)) :
    apply op ⟨name, none, j.compactGroup below, none⟩ value negated =
      apply op ⟨name, none, j, none⟩ value negated := by
  cases op with
  | between => cases j <;> rfl
  | compare | oneOf | not | and | or => rfl

/-- A blank member has no conditions. -/
theorem member_of_blank {name : String} {value : Json} (h : isBlankMember value = true)
    (group : GroupValue) (field : Sql.Expr → Except CompileError (List Sql.Expr)) :
    w.member name value group field = .ok [] := by
  rw [member, h, Bool.true_or, if_pos rfl]

/-- The conditions of a member do not depend on blank members in its value. -/
theorem member_compactValue {name : String} {value : Json}
    (hgroup : w.groupValue (value.compactGroup below) = w.groupValue value)
    (hfield : below = true → ∀ column,
      w.field column (value.compactField below) = w.field column value) :
    let value' := compactValue below name value (value.compactGroup below)
      (value.compactField below)
    w.member name value' (w.groupValue value') (fun column => w.field column value') =
      w.member name value (w.groupValue value) (fun column => w.field column value) := by
  unfold compactValue
  split_ifs with hname hbelow
  · simp only [member, hgroup, hname, if_true, isBlankMember_compactGroup, apply_compactGroup]
  · obtain ⟨rfl, hexpr⟩ := Bool.and_eq_true_iff.1 hbelow
    have fields : (fun column => w.field column (value.compactField true)) =
        fun column => w.field column value := funext (hfield rfl)
    simp only [member, fields, hname, bne_iff_ne.1 hexpr, if_false, isBlankMember_compactField]
    rfl
  · rfl

-- The recursion is that of `View.members` and of the functions that are defined with it.
mutual

theorem members_compact (hw : below = true → w.operators = .standard) :
    ∀ ms : Members, w.members (ms.compact below) = w.members ms
  | [] => rfl
  | (name, value) :: rest => by
    have more := members_compact hw rest
    rw [Members.compact]
    split_ifs with hblank
    · rw [members, member_of_blank hblank, more]
      cases w.members rest <;> rfl
    · rw [members, members, more, member_compactValue (groupValue_compact hw value)
        (fun hbelow => field_compact hbelow (hw hbelow) value)]

theorem memberArms_compact (hw : below = true → w.operators = .standard) :
    ∀ ms : Members, w.memberArms (ms.compact below) = w.memberArms ms
  | [] => rfl
  | (name, value) :: rest => by
    have more := memberArms_compact hw rest
    rw [Members.compact]
    split_ifs with hblank
    · rw [memberArms, member_of_blank hblank, more]
      cases w.memberArms rest <;> rfl
    · rw [memberArms, memberArms, more, member_compactValue (groupValue_compact hw value)
        (fun hbelow => field_compact hbelow (hw hbelow) value)]

theorem elementArms_compact (hw : below = true → w.operators = .standard) :
    ∀ xs : List Json, w.elementArms (Json.compactArms below xs) = w.elementArms xs
  | [] => rfl
  | x :: xs => by
    rw [Json.compactArms, elementArms, elementArms, element_compact hw x, elementArms_compact hw xs]

theorem element_compact (hw : below = true → w.operators = .standard) :
    ∀ j : Json, w.element (j.compactArm below) = w.element j
  | .obj ms => members_compact hw ms
  | .null | .bool _ | .num _ | .str _ | .arr _ => rfl

theorem groupValue_compact (hw : below = true → w.operators = .standard) :
    ∀ j : Json, w.groupValue (j.compactGroup below) = w.groupValue j
  | .obj ms => by
    rw [Json.compactGroup, groupValue, groupValue, members_compact hw ms, memberArms_compact hw ms]
  | .arr xs => by rw [Json.compactGroup, groupValue, groupValue, elementArms_compact hw xs]
  | .null | .bool _ | .num _ | .str _ => rfl

theorem field_compact (hbelow : below = true) (hw : w.operators = .standard) :
    ∀ (j : Json) (column : Sql.Expr), w.field column (j.compactField below) = w.field column j
  | .obj ms, column => entries_compact hbelow hw ms column
  | .null, _ | .bool _, _ | .num _, _ | .str _, _ | .arr _, _ => rfl

theorem entries_compact (hbelow : below = true) (hw : w.operators = .standard) :
    ∀ (ms : Members) (column : Sql.Expr),
      w.entries column (Members.compactEntries below ms) = w.entries column ms
  | [], _ => rfl
  | (name, value) :: rest, column => by
    rw [Members.compactEntries, entries, entries, hw, entries_compact hbelow hw rest column]
    cases hop : Operators.standard.get name with
    | error e => rfl
    | ok op =>
      rw [operatorNamed_of_get hop]
      have group := groupValue_compact (fun _ => hw) value
      have field := field_compact hbelow hw value column
      cases op with
      | and | or =>
        simp only [group]
        rfl
      | not =>
        simp only [field, isBlankMember_compactField]
        rfl
      | compare | oneOf | between => rfl

end

/-- Blank members add nothing to the condition of a tree. -/
theorem compile_compact (hw : below = true → w.operators = .standard) (ms : Members) :
    w.compile (some (ms.compact below)) = w.compile (some ms) := by
  rw [compile, compile, members_compact hw]

end View

/-! ## Keys -/

namespace FilterKey

variable {below : Bool} {p : FilterKey → Bool}

/-- Of what the blank member mentions, nothing passes. -/
def Rejects (p : FilterKey → Bool) : String × Json → Prop
  | (name, value) => isGroup name = true ∨ (name = joinDirective ∧ value = .arr []) ∨
    (name ≠ exprDirective ∧ name ≠ joinDirective ∧ p ⟨name, false⟩ = false)

/-- Mentions one after the other, of which some pass. -/
theorem map_filter_both (p : FilterKey → Bool) (x y : Except CompileError (List FilterKey)) :
    (both x y).map (List.filter p) = both (x.map (List.filter p)) (y.map (List.filter p)) := by
  cases x with
  | error e => rfl
  | ok here =>
    cases y with
    | error e => rfl
    | ok more => exact congrArg Except.ok (List.filter_append ..)

/-- A blank member of which nothing passes is not missed. -/
theorem rejected_of_blank {name : String} {value : Json} (hblank : isBlankMember value = true)
    (h : Rejects p (name, value)) :
    (ofMemberOrGroup name value).map (List.filter p) = .ok [] := by
  rw [ofMemberOrGroup]
  by_cases hname : isGroup name = true
  · rw [if_pos hname]
    match value with
    | .str _ | .arr [] => rfl
    | .null | .bool _ | .num _ | .obj _ | .arr (_ :: _) => cases hblank
  rw [if_neg hname, ofMember]
  obtain hgroup | ⟨rfl, rfl⟩ | ⟨hexpr, hjoin, hp⟩ := h
  · exact absurd hgroup hname
  · rfl
  · rw [if_neg hexpr, if_neg hjoin]
    simp [Except.map, hp]

/-- What a member mentions depends on blank members only if it is a group. -/
theorem ofMemberOrGroup_compactValue {name : String} {value : Json}
    (h : isGroup name = true → (groupMentions (value.compactGroup below)).map (List.filter p) =
      (groupMentions value).map (List.filter p)) :
    (ofMemberOrGroup name (compactValue below name value (value.compactGroup below)
      (value.compactField below))).map (List.filter p) =
      (ofMemberOrGroup name value).map (List.filter p) := by
  unfold ofMemberOrGroup compactValue
  split_ifs with hname hbelow
  · exact h hname
  · have hexpr : name ≠ exprDirective := bne_iff_ne.1 (Bool.and_eq_true_iff.1 hbelow).2
    rw [ofMember, ofMember, if_neg hexpr, if_neg hexpr]
    cases value <;> rfl
  · rfl

-- The recursion is that of `FilterKey.mentions` and of the functions that are defined with it.
mutual

theorem mentions_compact : ∀ ms : Members, (∀ m ∈ ms.blanks, Rejects p m) →
    (mentions (ms.compact below)).map (List.filter p) = (mentions ms).map (List.filter p)
  | [], _ => rfl
  | (name, value) :: rest, h => by
    rw [Members.blanks, List.forall_mem_append] at h
    obtain ⟨hhere, hmore⟩ := h
    have more := mentions_compact rest hmore
    rw [Members.compact, mentions_cons, map_filter_both]
    split_ifs at hhere ⊢ with hblank hname
    · rw [rejected_of_blank hblank (hhere _ List.mem_cons_self), more, nil_both]
    · rw [mentions_cons, map_filter_both, more,
        ofMemberOrGroup_compactValue fun _ => groupMentions_compact value hhere]
    · rw [mentions_cons, map_filter_both, more,
        ofMemberOrGroup_compactValue fun h => absurd h hname]

theorem groupMentions_compact : ∀ j : Json, (∀ m ∈ j.groupBlanks, Rejects p m) →
    (groupMentions (j.compactGroup below)).map (List.filter p) =
      (groupMentions j).map (List.filter p)
  | .obj ms, h => mentions_compact ms h
  | .arr xs, h => armMentions_compact xs h
  | .null, _ | .bool _, _ | .num _, _ | .str _, _ => rfl

theorem armMentions_compact : ∀ xs : List Json, (∀ m ∈ Json.armBlanks xs, Rejects p m) →
    (armMentions (Json.compactArms below xs)).map (List.filter p) =
      (armMentions xs).map (List.filter p)
  | [], _ => rfl
  | x :: xs, h => by
    rw [Json.armBlanks, List.forall_mem_append] at h
    rw [Json.compactArms, armMentions_cons, armMentions_cons, map_filter_both, map_filter_both,
      elementMentions_compact x h.1, armMentions_compact xs h.2]

theorem elementMentions_compact : ∀ j : Json, (∀ m ∈ j.elementBlanks, Rejects p m) →
    (elementMentions (j.compactArm below)).map (List.filter p) =
      (elementMentions j).map (List.filter p)
  | .obj ms, h => mentions_compact ms h
  | .null, _ | .bool _, _ | .num _, _ | .str _, _ | .arr _, _ => rfl

end

end FilterKey

end FilterSql
