import FilterSql.Plan.Keys
import FilterSql.Proofs.Outcome
import Mathlib.Data.List.Induction
import Mathlib.Data.List.Nodup

/-!
# Keys that a tree mentions

The members of a tree of conditions, with those in the clauses of a group in the place of the group,
stand in the order in which they are met (`Members.leaves`).  Each of them refers to keys
(`FilterKey.Refers`), unless it is a directive that is malformed (`FilterKey.Malformed`).
`FilterKey.ofClause_ordered` says what becomes of them: the first that is malformed is an error, and
without one the keys are those that are referred to, each once, where it comes first.
-/

namespace FilterSql

/-! ## Members in the order of the document -/

mutual

/-- The members of a clause that are no groups, and in the place of a group those of its clauses. -/
def Members.leaves : Members → Members
  | [] => []
  | (name, value) :: rest =>
    (if isGroup name then Json.groupLeaves value else [(name, value)]) ++ Members.leaves rest

/-- The members of the clauses in the value of a group. -/
def Json.groupLeaves : Json → Members
  | .obj ms => Members.leaves ms
  | .arr xs => Json.armLeaves xs
  | _ => []

/-- The members of the elements of a group. -/
def Json.armLeaves : List Json → Members
  | [] => []
  | x :: xs => Json.elementLeaves x ++ Json.armLeaves xs

/-- The members of an element of a group. -/
def Json.elementLeaves : Json → Members
  | .obj ms => Members.leaves ms
  | _ => []

end

/-- The member is no group, and is in the clause or in a clause of one of its groups. -/
inductive Members.Reaches (m : String × Json) : Members → Prop
  | here {ms : Members} (h : m ∈ ms) (leaf : isGroup m.1 = false) : Reaches m ms
  | clause {ms inner : Members} {name : String} (h : (name, .obj inner) ∈ ms)
    (group : isGroup name = true) (reaches : Reaches m inner) : Reaches m ms
  | element {ms inner : Members} {name : String} {xs : List Json} (h : (name, .arr xs) ∈ ms)
    (group : isGroup name = true) (hx : .obj inner ∈ xs) (reaches : Reaches m inner) : Reaches m ms

namespace Members

variable {m : String × Json} {ms : Members}

theorem leaves_eq_flatMap (ms : Members) : ms.leaves =
    ms.flatMap fun m => if isGroup m.1 then m.2.groupLeaves else [m] := by
  induction ms with
  | nil => rfl
  | cons m ms ih => rw [leaves, ih, List.flatMap_cons]

theorem armLeaves_eq_flatMap (xs : List Json) :
    Json.armLeaves xs = xs.flatMap Json.elementLeaves := by
  induction xs with
  | nil => rfl
  | cons x xs ih => rw [Json.armLeaves, ih, List.flatMap_cons]

theorem Reaches.tail {name : String} {value : Json} (h : Reaches m ms) :
    Reaches m ((name, value) :: ms) := by
  cases h with
  | here h leaf => exact .here (List.mem_cons_of_mem _ h) leaf
  | clause h group reaches => exact .clause (List.mem_cons_of_mem _ h) group reaches
  | element h group hx reaches => exact .element (List.mem_cons_of_mem _ h) group hx reaches

-- The recursion is that of `Members.leaves` and of the functions that are defined with it.
mutual

theorem reaches_of_mem_leaves : ∀ ms : Members, m ∈ ms.leaves → Reaches m ms
  | [], h => by cases h
  | (name, value) :: rest, h => by
    obtain h | h := List.mem_append.1 h
    · split_ifs at h with group
      · exact reaches_of_mem_groupLeaves group value h
      · obtain rfl := List.mem_singleton.1 h
        exact .here List.mem_cons_self (by simpa using group)
    · exact (reaches_of_mem_leaves rest h).tail

theorem reaches_of_mem_groupLeaves {name : String} {rest : Members} (group : isGroup name = true) :
    ∀ value : Json, m ∈ value.groupLeaves → Reaches m ((name, value) :: rest)
  | .obj ms, h => .clause List.mem_cons_self group (reaches_of_mem_leaves ms h)
  | .arr xs, h => by
    obtain ⟨inner, hx, reaches⟩ := reaches_of_mem_armLeaves xs h
    exact .element List.mem_cons_self group hx reaches
  | .null, h | .bool _, h | .num _, h | .str _, h => by cases h

theorem reaches_of_mem_armLeaves : ∀ xs : List Json, m ∈ Json.armLeaves xs →
    ∃ inner, .obj inner ∈ xs ∧ Reaches m inner
  | [], h => by cases h
  | x :: xs, h => by
    obtain h | h := List.mem_append.1 h
    · obtain ⟨inner, rfl, reaches⟩ := reaches_of_mem_elementLeaves x h
      exact ⟨inner, List.mem_cons_self, reaches⟩
    · obtain ⟨inner, hx, reaches⟩ := reaches_of_mem_armLeaves xs h
      exact ⟨inner, List.mem_cons_of_mem _ hx, reaches⟩

theorem reaches_of_mem_elementLeaves : ∀ x : Json, m ∈ x.elementLeaves →
    ∃ inner, x = .obj inner ∧ Reaches m inner
  | .obj ms, h => ⟨ms, rfl, reaches_of_mem_leaves ms h⟩
  | .null, h | .bool _, h | .num _, h | .str _, h | .arr _, h => by cases h

end

/-- The members of a tree are those that can be reached through groups. -/
theorem mem_leaves_iff : m ∈ ms.leaves ↔ Reaches m ms := by
  refine ⟨reaches_of_mem_leaves ms, fun h => ?_⟩
  induction h with
  | here h leaf =>
    rw [leaves_eq_flatMap, List.mem_flatMap]
    exact ⟨m, h, by simp [leaf]⟩
  | clause h group _ ih =>
    rw [leaves_eq_flatMap, List.mem_flatMap]
    refine ⟨_, h, ?_⟩
    rwa [if_pos group]
  | element h group hx _ ih =>
    rw [leaves_eq_flatMap, List.mem_flatMap]
    refine ⟨_, h, ?_⟩
    rw [if_pos group, Json.groupLeaves, armLeaves_eq_flatMap, List.mem_flatMap]
    exact ⟨_, hx, ih⟩

end Members

namespace FilterKey

/-! ## Keys to which a member refers -/

/-- The operand stands for the keys: a text for what follows a `$`, anything else for none. -/
inductive Projects : Json → List String → Prop
  | key (k : String) : Projects (.str ("$" ++ k)) [k]
  | other {j : Json} (h : ∀ k, j ≠ .str ("$" ++ k)) : Projects j []

/-- A member that is no group refers to the keys: to those of both operands of a comparison, to the
paths of a join directive, or to its own name. -/
inductive Refers : String × Json → List String → Prop
  | operands {operator : String} {left right : Json} {rest : Members} {ks ks' : List String}
    (hleft : Projects left ks) (hright : Projects right ks') :
    Refers (exprDirective, .obj ((operator, .arr [left, right]) :: rest)) (ks ++ ks')
  | path (path : String) : Refers (joinDirective, .str path) [path]
  | paths (paths : List String) : Refers (joinDirective, .arr (paths.map .str)) paths
  | name {name : String} {value : Json} (hexpr : name ≠ exprDirective)
    (hjoin : name ≠ joinDirective) : Refers (name, value) [name]

/-- The member is a directive that refers to nothing, for the reason of the error. -/
inductive Malformed : String × Json → CompileError → Prop
  | noObject {value : Json} (h : ∀ ms, value ≠ .obj ms) :
    Malformed (exprDirective, value) (.invalidExpression "$expr must be an object")
  | noOperator : Malformed (exprDirective, .obj []) (.invalidExpression "$expr has no operator")
  | noOperands {operator : String} {value : Json} {rest : Members}
    (h : ∀ left right, value ≠ .arr [left, right]) :
    Malformed (exprDirective, .obj ((operator, value) :: rest))
      (.invalidExpression s!"$expr->{operator} must be an array value with 2 elements")
  | noPaths {value : Json} (hpath : ∀ path, value ≠ .str path)
    (hpaths : ∀ paths : List String, value ≠ .arr (paths.map .str)) :
    Malformed (joinDirective, value)
      (.invalidOperand joinDirective "expected a relation path or a list of paths")

theorem projection?_eq_some_iff {j : Json} {k : String} :
    projection? j = some k ↔ j = .str ("$" ++ k) := by
  constructor
  · intro h
    unfold projection? at h
    split at h
    · split at h
      · rename_i rest hs
        obtain rfl := Option.some.inj h
        refine congrArg Json.str (String.toList_inj.1 ?_)
        simp [hs]
      · cases h
    · cases h
  · rintro rfl
    have text : ("$" ++ k).toList = '$' :: k.toList := String.toList_append
    simp only [projection?, text, String.ofList_toList]

theorem projects_iff {j : Json} {ks : List String} :
    Projects j ks ↔ ks = (projection? j).toList := by
  constructor
  · intro h
    cases h with
    | key k => rw [projection?_eq_some_iff.2 rfl, Option.toList_some]
    | other h =>
      have none : projection? j = none :=
        Option.eq_none_iff_forall_ne_some.2 fun k hk => h k (projection?_eq_some_iff.1 hk)
      rw [none, Option.toList_none]
  · rintro rfl
    cases h : projection? j with
    | some k => exact projection?_eq_some_iff.1 h ▸ .key k
    | none =>
      refine .other fun k hk => ?_
      cases h.symm.trans (projection?_eq_some_iff.2 hk)

theorem ofOperands_eq (left right : Json) : ofOperands left right =
    ((projection? left).toList ++ (projection? right).toList).map fun key => ⟨key, false⟩ := by
  rw [ofOperands]
  cases hl : projection? left <;> cases hr : projection? right <;> simp [hl, hr]

theorem mapM_str?_eq_some {xs : List Json} {paths : List String} :
    xs.mapM Json.str? = some paths ↔ xs = paths.map .str := by
  have texts : (fun (x : Json) path => x.str? = some path) = fun x path => x = .str path := by
    funext x path
    cases x <;> simp [Json.str?]
  rw [mapM_eq_some_iff, texts, ← List.forall₂_map_right_iff, List.forall₂_eq_eq_eq]

theorem exprOperands_of_ne {operator : String} {value : Json} {rest : Members}
    (h : ∀ left right, value ≠ .arr [left, right]) :
    exprOperands (.obj ((operator, value) :: rest)) = .error
      (.invalidExpression s!"$expr->{operator} must be an array value with 2 elements") := by
  match value, h with
  | .arr [left, right], h => exact absurd rfl (h left right)
  | .arr [], _ | .arr [_], _ | .arr (_ :: _ :: _ :: _), _ => rfl
  | .null, _ | .bool _, _ | .num _, _ | .str _, _ | .obj _, _ => rfl

theorem joinPaths_of_texts (paths : List String) :
    joinPaths (.arr (paths.map .str)) = .ok paths := by
  have found : (paths.map Json.str).mapM Json.str? = some paths := mapM_str?_eq_some.2 rfl
  simp only [joinPaths, found]

theorem joinPaths_of_ne {value : Json} (hpath : ∀ path, value ≠ .str path)
    (hpaths : ∀ paths : List String, value ≠ .arr (paths.map .str)) : joinPaths value =
      .error (.invalidOperand joinDirective "expected a relation path or a list of paths") := by
  cases value with
  | str path => exact absurd rfl (hpath path)
  | arr xs =>
    cases h : xs.mapM Json.str? with
    | none => simp only [joinPaths, h]
    | some paths => exact absurd (congrArg Json.arr (mapM_str?_eq_some.1 h)) (hpaths paths)
  | _ => rfl

theorem ofMember_expr (value : Json) : ofMember exprDirective value =
    (exprOperands value).map fun (_, left, right) => ofOperands left right := rfl

theorem ofMember_join (value : Json) : ofMember joinDirective value =
    (joinPaths value).map fun paths => paths.map fun path => ⟨path, true⟩ := rfl

/-- What the member refers to it mentions, and a join directive forces it. -/
theorem Refers.ofMember {m : String × Json} {ks : List String} (h : Refers m ks) :
    ofMember m.1 m.2 = .ok (ks.map fun k => ⟨k, decide (m.1 = joinDirective)⟩) := by
  cases h with
  | operands hleft hright =>
    obtain rfl := projects_iff.1 hleft
    obtain rfl := projects_iff.1 hright
    exact congrArg Except.ok (ofOperands_eq _ _)
  | path path => rfl
  | paths =>
    rw [ofMember_join, joinPaths_of_texts]
    rfl
  | name hexpr hjoin => simp [FilterKey.ofMember, hexpr, hjoin]

theorem Malformed.ofMember {m : String × Json} {e : CompileError} (h : Malformed m e) :
    ofMember m.1 m.2 = .error e := by
  cases h with
  | @noObject value h =>
    cases value with
    | obj ms => exact absurd rfl (h ms)
    | _ => rfl
  | noOperator => rfl
  | noOperands h => rw [ofMember_expr, exprOperands_of_ne h, Except.map]
  | noPaths hpath hpaths => rw [ofMember_join, joinPaths_of_ne hpath hpaths, Except.map]

/-- Every member refers to keys or is malformed. -/
theorem refers_or_malformed (m : String × Json) :
    (∃ ks, Refers m ks) ∨ ∃ e, Malformed m e := by
  obtain ⟨name, value⟩ := m
  by_cases hexpr : name = exprDirective
  · subst hexpr
    by_cases hobj : ∃ ms, value = .obj ms
    · obtain ⟨_ | ⟨⟨operator, operands⟩, rest⟩, rfl⟩ := hobj
      · exact .inr ⟨_, .noOperator⟩
      by_cases htwo : ∃ left right, operands = .arr [left, right]
      · obtain ⟨left, right, rfl⟩ := htwo
        exact .inl ⟨_, .operands (projects_iff.2 rfl) (projects_iff.2 rfl)⟩
      · exact .inr ⟨_, .noOperands fun left right h => htwo ⟨left, right, h⟩⟩
    · exact .inr ⟨_, .noObject fun ms h => hobj ⟨ms, h⟩⟩
  by_cases hjoin : name = joinDirective
  · subst hjoin
    by_cases hpath : ∃ path, value = .str path
    · obtain ⟨path, rfl⟩ := hpath
      exact .inl ⟨_, .path path⟩
    by_cases hpaths : ∃ paths : List String, value = .arr (paths.map .str)
    · obtain ⟨paths, rfl⟩ := hpaths
      exact .inl ⟨_, .paths paths⟩
    · exact .inr ⟨_, .noPaths (fun path h => hpath ⟨path, h⟩) fun paths h => hpaths ⟨paths, h⟩⟩
  · exact .inl ⟨_, .name hexpr hjoin⟩

theorem ofMember_eq_ok_iff {m : String × Json} {ks : List FilterKey} :
    ofMember m.1 m.2 = .ok ks ↔ ∃ keys, Refers m keys ∧
      ks = keys.map fun k => ⟨k, decide (m.1 = joinDirective)⟩ := by
  constructor
  · intro h
    obtain ⟨keys, refers⟩ | ⟨e, malformed⟩ := refers_or_malformed m
    · exact ⟨keys, refers, Except.ok.inj (h.symm.trans refers.ofMember)⟩
    · cases h.symm.trans malformed.ofMember
  · rintro ⟨keys, refers, rfl⟩
    exact refers.ofMember

theorem ofMember_eq_error_iff {m : String × Json} {e : CompileError} :
    ofMember m.1 m.2 = .error e ↔ Malformed m e := by
  refine ⟨fun h => ?_, Malformed.ofMember⟩
  obtain ⟨keys, refers⟩ | ⟨e', malformed⟩ := refers_or_malformed m
  · cases h.symm.trans refers.ofMember
  · obtain rfl := Except.error.inj (h.symm.trans malformed.ofMember)
    exact malformed

theorem exists_ofMember_eq_ok_iff {m : String × Json} :
    (∃ ks, ofMember m.1 m.2 = .ok ks) ↔ ∀ e, ¬ Malformed m e := by
  simp only [← ofMember_eq_error_iff]
  cases ofMember m.1 m.2 <;> simp

/-! ## Mentions in the order of the document -/

/-- The mentions in a member. -/
def ofMemberOrGroup (name : String) (value : Json) : Except CompileError (List FilterKey) :=
  if isGroup name then groupMentions value else ofMember name value

theorem mentions_cons (name : String) (value : Json) (rest : Members) :
    mentions ((name, value) :: rest) = both (ofMemberOrGroup name value) (mentions rest) := by
  rw [mentions, ofMemberOrGroup]
  split_ifs <;> rfl

theorem armMentions_cons (x : Json) (xs : List Json) :
    armMentions (x :: xs) = both (elementMentions x) (armMentions xs) := by
  rw [armMentions]
  rfl

/-- The mentions in members that are no groups. -/
def ofLeaves (ms : Members) : Except CompileError (List FilterKey) :=
  (ms.mapM fun m => ofMember m.1 m.2).map List.flatten

theorem ofLeaves_singleton (name : String) (value : Json) :
    ofLeaves [(name, value)] = ofMember name value := by
  rw [ofLeaves, List.mapM_cons, List.mapM_nil]
  cases ofMember name value <;> simp [bind, Except.bind, Except.map, pure, Except.pure]

theorem ofLeaves_append (ms more : Members) :
    ofLeaves (ms ++ more) = both (ofLeaves ms) (ofLeaves more) := by
  rw [ofLeaves, ofLeaves, ofLeaves, List.mapM_append]
  cases ms.mapM fun m => ofMember m.1 m.2 with
  | error e => rfl
  | ok here =>
    cases more.mapM fun m => ofMember m.1 m.2 with
    | error e => rfl
    | ok there => exact congrArg Except.ok List.flatten_append

-- The recursion is that of `FilterKey.mentions` and of the functions that are defined with it.
mutual

/-- The mentions in a tree are those in its members in their order. -/
theorem mentions_eq : ∀ ms : Members, mentions ms = ofLeaves ms.leaves
  | [] => rfl
  | (name, value) :: rest => by
    rw [mentions_cons, Members.leaves, ofLeaves_append, mentions_eq rest, ofMemberOrGroup]
    split_ifs
    · rw [groupMentions_eq value]
    · rw [ofLeaves_singleton]

theorem groupMentions_eq : ∀ value : Json, groupMentions value = ofLeaves value.groupLeaves
  | .obj ms => mentions_eq ms
  | .arr xs => armMentions_eq xs
  | .null | .bool _ | .num _ | .str _ => rfl

theorem armMentions_eq : ∀ xs : List Json, armMentions xs = ofLeaves (Json.armLeaves xs)
  | [] => rfl
  | x :: xs => by
    rw [armMentions_cons, Json.armLeaves, ofLeaves_append, elementMentions_eq x, armMentions_eq xs]

theorem elementMentions_eq : ∀ x : Json, elementMentions x = ofLeaves x.elementLeaves
  | .obj ms => mentions_eq ms
  | .null | .bool _ | .num _ | .str _ | .arr _ => rfl

end

/-! ## Each key once -/

theorem keys_add (keys : List FilterKey) (k : FilterKey) : (add keys k).map (·.key) =
    if k.key ∈ keys.map (·.key) then keys.map (·.key) else keys.map (·.key) ++ [k.key] := by
  induction keys with
  | nil => simp [add]
  | cons first rest ih =>
    rw [add]
    by_cases same : first.key = k.key
    · simp [same]
    · rw [if_neg same, List.map_cons, ih, List.map_cons]
      simp only [List.mem_cons, Ne.symm same, false_or]
      split_ifs <;> rfl

theorem eraseDups_append_singleton (names : List String) (name : String) :
    (names ++ [name]).eraseDups =
      if name ∈ names then names.eraseDups else names.eraseDups ++ [name] := by
  rw [List.eraseDups_append]
  split_ifs with old <;> simp [old, List.removeAll, List.eraseDups_cons]

/-- Keys that are added are there once, where they come first. -/
theorem keys_foldl_add (ks : List FilterKey) :
    (ks.foldl add []).map (·.key) = (ks.map (·.key)).eraseDups := by
  induction ks using List.reverseRecOn with
  | nil => rfl
  | append_singleton ks k ih =>
    rw [List.foldl_append, List.foldl_cons, List.foldl_nil, keys_add, ih, List.map_append,
      List.map_singleton, eraseDups_append_singleton]
    simp only [List.mem_eraseDups]

theorem nodup_foldl_add (ks : List FilterKey) : ((ks.foldl add []).map (·.key)).Nodup := by
  induction ks using List.reverseRecOn with
  | nil => exact List.nodup_nil
  | append_singleton ks k ih =>
    rw [List.foldl_append, List.foldl_cons, List.foldl_nil, keys_add]
    split_ifs with old
    · exact ih
    · exact List.nodup_append.2 ⟨ih, List.nodup_singleton _, by grind⟩

/-- A key is forced if one of its mentions is. -/
theorem forced_mem_add {keys : List FilterKey} {k : FilterKey} {key : String} :
    ⟨key, true⟩ ∈ add keys k ↔ ⟨key, true⟩ ∈ keys ∨ k = ⟨key, true⟩ := by
  induction keys with
  | nil => simp [add, eq_comm]
  | cons first rest ih =>
    obtain ⟨name, forced⟩ := first
    obtain ⟨name', forced'⟩ := k
    rw [add]
    split_ifs with same
    · dsimp only at same
      subst same
      simp only [List.mem_cons, FilterKey.mk.injEq]
      cases forced <;> cases forced' <;> grind
    · rw [List.mem_cons, ih, List.mem_cons, or_assoc]

theorem forced_mem_foldl_add {ks keys : List FilterKey} {key : String} :
    ⟨key, true⟩ ∈ ks.foldl add keys ↔ ⟨key, true⟩ ∈ keys ∨ ⟨key, true⟩ ∈ ks := by
  induction ks generalizing keys with
  | nil => simp
  | cons k ks ih => rw [List.foldl_cons, ih, forced_mem_add, List.mem_cons, or_assoc, eq_comm]

/-- Of keys of which each is there once, those are forced that are there as forced. -/
theorem forced_iff_mem {keys : List FilterKey} (h : (keys.map (·.key)).Nodup) {k : FilterKey}
    (hk : k ∈ keys) : k.forced = true ↔ ⟨k.key, true⟩ ∈ keys := by
  constructor
  · intro forced
    rwa [← forced]
  · intro hforced
    exact congrArg FilterKey.forced (List.inj_on_of_nodup_map h hk hforced rfl)

/-! ## Keys of a tree -/

variable {clause : Members}

theorem ofClause_eq_error_iff {e : CompileError} : ofClause clause = .error e ↔
    clause.leaves.mapM (fun m => ofMember m.1 m.2) = .error e := by
  rw [ofClause, mentions_eq, map_eq_error, ofLeaves, map_eq_error]

theorem ofClause_eq_ok_iff {keys : List FilterKey} : ofClause clause = .ok keys ↔
    ∃ kss, clause.leaves.mapM (fun m => ofMember m.1 m.2) = .ok kss ∧
      kss.flatten.foldl add [] = keys := by
  simp only [ofClause, mentions_eq, ofLeaves, map_eq_ok]
  grind

/-- What is mentioned as forced are the paths of join directives. -/
theorem forced_mem_flatten {kss : List (List FilterKey)}
    (h : clause.leaves.mapM (fun m => ofMember m.1 m.2) = .ok kss) {key : String} :
    ⟨key, true⟩ ∈ kss.flatten ↔ ∃ value paths, clause.Reaches (joinDirective, value) ∧
      Refers (joinDirective, value) paths ∧ key ∈ paths := by
  rw [List.mem_flatten]
  constructor
  · rintro ⟨ks, hks, hkey⟩
    obtain ⟨⟨name, value⟩, hm, hks⟩ := (mem_mapM_iff h).1 hks
    obtain ⟨paths, refers, rfl⟩ := ofMember_eq_ok_iff.1 hks
    obtain ⟨path, hpath, same⟩ := List.mem_map.1 hkey
    obtain ⟨rfl, hjoin⟩ := FilterKey.mk.inj same
    obtain rfl : name = joinDirective := of_decide_eq_true hjoin
    exact ⟨value, paths, Members.mem_leaves_iff.1 hm, refers, hpath⟩
  · rintro ⟨value, paths, reaches, refers, hkey⟩
    refine ⟨_, (mem_mapM_iff h).2 ⟨_, Members.mem_leaves_iff.2 reaches, refers.ofMember⟩, ?_⟩
    exact List.mem_map.2 ⟨key, hkey, by simp⟩

/-- Extracting the keys of a tree fails with the error of the first malformed directive in the order
of the document, just in case there is one that can be reached through groups.  Otherwise the keys
are those to which the members refer, each once and in the order in which they come first, and those
that a join directive names are forced. -/
theorem ofClause_ordered (clause : Members) :
    (∀ e, ofClause clause = .error e ↔ ∃ before m after, clause.leaves = before ++ m :: after ∧
      Malformed m e ∧ ∀ m' ∈ before, ∀ e', ¬ Malformed m' e') ∧
    ((∃ e, ofClause clause = .error e) ↔ ∃ m e, clause.Reaches m ∧ Malformed m e) ∧
    ∀ keys, ofClause clause = .ok keys → ∃ kss, List.Forall₂ Refers clause.leaves kss ∧
      keys.map (·.key) = kss.flatten.eraseDups ∧
      ∀ k ∈ keys, k.forced = true ↔ ∃ value paths, clause.Reaches (joinDirective, value) ∧
        Refers (joinDirective, value) paths ∧ k.key ∈ paths := by
  refine ⟨fun e => ?_, ?_, fun keys h => ?_⟩
  · rw [ofClause_eq_error_iff, mapM_eq_error]
    simp only [exists_ofMember_eq_ok_iff, ofMember_eq_error_iff]
  · simp only [ofClause_eq_error_iff, exists_mapM_eq_error, ofMember_eq_error_iff,
      Members.mem_leaves_iff, exists_and_left]
  · obtain ⟨kss, hkss, rfl⟩ := ofClause_eq_ok_iff.1 h
    refine ⟨kss.map (List.map (·.key)), ?_, ?_, fun k hk => ?_⟩
    · refine List.forall₂_map_right_iff.2 ((mapM_eq_ok.1 hkss).imp fun m ks hks => ?_)
      obtain ⟨keys, refers, rfl⟩ := ofMember_eq_ok_iff.1 hks
      rw [List.map_map]
      exact (List.map_id keys).symm ▸ refers
    · rw [keys_foldl_add, List.map_flatten]
    · rw [forced_iff_mem (nodup_foldl_add _) hk, forced_mem_foldl_add, forced_mem_flatten hkss]
      simp

/-- A tree that mentions keys in groups, some of them more than once. -/
def loansClause : Members := [
  ("title", .str "a"),
  ("or", .arr [
    .obj [("!", .obj [("$expr", .obj [("eq", .arr [.str "$due", .str "$reader.since"])])])],
    .obj [("$join", .arr [.str "reader", .str "title"])],
    .obj [("title", .str "b"), ("reader", .obj [("ne", .null)])]])]

/-- A tree with two malformed directives. -/
def brokenClause : Members := [
  ("title", .str "a"),
  ("and", .obj [("not", .arr [.obj [("$expr", .obj [])], .obj [("$join", .null)]])])]

theorem ofClause_ordered_loans :
    (∃ keys kss, ofClause loansClause = .ok keys ∧
      keys = [⟨"title", true⟩, ⟨"due", false⟩, ⟨"reader.since", false⟩, ⟨"reader", true⟩] ∧
      List.Forall₂ Refers loansClause.leaves kss ∧ keys.map (·.key) = kss.flatten.eraseDups ∧
      ∀ k ∈ keys, k.forced = true ↔ ∃ value paths, loansClause.Reaches (joinDirective, value) ∧
        Refers (joinDirective, value) paths ∧ k.key ∈ paths) ∧
    (∃ before m after, brokenClause.leaves = before ++ m :: after ∧
      Malformed m (.invalidExpression "$expr has no operator") ∧
      ∀ m' ∈ before, ∀ e', ¬ Malformed m' e') ∧
    ∃ m e, brokenClause.Reaches m ∧ Malformed m e := by
  have extracted : ofClause loansClause =
      .ok [⟨"title", true⟩, ⟨"due", false⟩, ⟨"reader.since", false⟩, ⟨"reader", true⟩] := by
    decide +kernel
  have broken : ofClause brokenClause = .error (.invalidExpression "$expr has no operator") := by
    decide +kernel
  obtain ⟨kss, ordered⟩ := (ofClause_ordered loansClause).2.2 _ extracted
  exact ⟨⟨_, kss, extracted, rfl, ordered⟩, ((ofClause_ordered brokenClause).1 _).1 broken,
    (ofClause_ordered brokenClause).2.1.1 ⟨_, broken⟩⟩

end FilterKey

end FilterSql
