import FilterSql.Json.Tree
import FilterSql.Proofs.Outcome
import Mathlib.Data.List.Nodup

/-!
# Documents with distinct names

Reading keeps one member of each name (`putAll`), so the objects of a document that was read have
distinct names (`Tree.distinct_of_json?`).  Such a document is read from its tree as it is
(`Json.Distinct.json?_ofJson`).
-/

namespace FilterSql

/-! ## Entries -/

section entries

variable {α : Type} {ms : List (String × α)} {name : String} {value : α}

theorem lookup_of_mem (names : (ms.map Prod.fst).Nodup) {m : String × α} (hm : m ∈ ms) :
    ms.lookup m.1 = some m.2 := by
  induction ms with
  | nil => cases hm
  | cons n ms ih =>
    rw [List.map_cons, List.nodup_cons] at names
    obtain rfl | hm := List.mem_cons.1 hm
    · exact List.lookup_cons_self
    · have other : (m.1 == n.1) = false :=
        beq_eq_false_iff_ne.2 fun h => names.1 (h ▸ List.mem_map_of_mem hm)
      rw [List.lookup_cons, other]
      exact ih names.2 hm

/-- A new entry is added at the end. -/
theorem put_of_notMem (h : name ∉ ms.map Prod.fst) : put name value ms = ms ++ [(name, value)] := by
  induction ms with
  | nil => rfl
  | cons m ms ih =>
    rw [List.map_cons, List.mem_cons, not_or] at h
    rw [put, if_neg (Ne.symm h.1), ih h.2, List.cons_append]

/-- The entry of a name that is there stays in its place. -/
theorem names_put_of_mem (h : name ∈ ms.map Prod.fst) :
    (put name value ms).map Prod.fst = ms.map Prod.fst := by
  induction ms with
  | nil => cases h
  | cons m ms ih =>
    rw [put]
    split_ifs with same
    · rfl
    · rw [List.map_cons, List.map_cons, ih ((List.mem_cons.1 h).resolve_left (Ne.symm same))]

theorem nodup_put (names : (ms.map Prod.fst).Nodup) : ((put name value ms).map Prod.fst).Nodup := by
  by_cases h : name ∈ ms.map Prod.fst
  · rw [names_put_of_mem h]
    exact names
  · rw [put_of_notMem h, List.map_append]
    exact names.append (List.nodup_singleton name) (List.disjoint_singleton.2 h)

theorem mem_put {m : String × α} (h : m ∈ put name value ms) : m = (name, value) ∨ m ∈ ms := by
  induction ms with
  | nil => exact .inl (List.mem_singleton.1 h)
  | cons n ms ih =>
    rw [put] at h
    split_ifs at h with same
    · exact (List.mem_cons.1 h).imp (fun h => same ▸ h) (List.mem_cons_of_mem _)
    · obtain rfl | h := List.mem_cons.1 h
      · exact .inr List.mem_cons_self
      · exact (ih h).imp_right (List.mem_cons_of_mem _)

theorem putAll_eq (ms : List (String × α)) :
    putAll ms = ms.foldl (fun acc m => put m.1 m.2 acc) [] := rfl

/-- Entries with distinct names are kept as they are. -/
theorem putAll_of_nodup (names : (ms.map Prod.fst).Nodup) : putAll ms = ms := by
  suffices general : ∀ rest acc : List (String × α), ((acc ++ rest).map Prod.fst).Nodup →
      rest.foldl (fun acc m => put m.1 m.2 acc) acc = acc ++ rest from general ms [] names
  intro rest
  induction rest with
  | nil => exact fun acc _ => (List.append_nil acc).symm
  | cons m rest ih =>
    intro acc names
    have fresh : m.1 ∉ acc.map Prod.fst := by
      rw [List.map_append, List.map_cons] at names
      exact fun h => List.disjoint_of_nodup_append names h List.mem_cons_self
    rw [← List.singleton_append, ← List.append_assoc] at names ⊢
    rw [List.singleton_append, List.foldl_cons, put_of_notMem fresh, ih _ names]

/-- What is kept has distinct names, and is there. -/
theorem putAll_spec (ms : List (String × α)) :
    ((putAll ms).map Prod.fst).Nodup ∧ ∀ m ∈ putAll ms, m ∈ ms := by
  have step (acc : List (String × α)) (h : (acc.map Prod.fst).Nodup ∧ ∀ m ∈ acc, m ∈ ms)
      (n : String × α) (hn : n ∈ ms) :
      ((put n.1 n.2 acc).map Prod.fst).Nodup ∧ ∀ m ∈ put n.1 n.2 acc, m ∈ ms :=
    ⟨nodup_put h.1, fun m hm => (mem_put hm).elim (fun same => same ▸ hn) (h.2 m)⟩
  rw [putAll_eq]
  exact List.foldlRecOn ms _ ⟨List.nodup_nil, fun _ h => absurd h List.not_mem_nil⟩ step

end entries

namespace Json

/-- Objects have each name once. -/
inductive Distinct : Json → Prop
  | null : Distinct .null
  | bool (b : Bool) : Distinct (.bool b)
  | num (n : Number) : Distinct (.num n)
  | str (s : String) : Distinct (.str s)
  | arr {xs : List Json} (h : ∀ x ∈ xs, Distinct x) : Distinct (.arr xs)
  | obj {ms : Members} (names : (ms.map Prod.fst).Nodup) (h : ∀ m ∈ ms, Distinct m.2) :
    Distinct (.obj ms)

end Json

namespace Tree

theorem elements?_ofElements {b : Budget} {xs : List Json}
    (h : ∀ x ∈ xs, json? b (ofJson x) = some x) : elements? b (ofElements xs) = some xs := by
  induction xs with
  | nil => rfl
  | cons x xs ih =>
    rw [List.forall_mem_cons] at h
    rw [ofElements, elements?, h.1, ih h.2]
    rfl

theorem members?_ofMembers {b : Budget} {ms : Members}
    (h : ∀ m ∈ ms, json? b (ofJson m.2) = some m.2) : members? b (ofMembers ms) = some ms := by
  induction ms with
  | nil => rfl
  | cons m ms ih =>
    rw [List.forall_mem_cons] at h
    rw [ofMembers, members?, h.1, ih h.2]
    rfl

mutual

/-- What is read has distinct names. -/
theorem distinct_of_json? {b : Budget} {t : Tree} {j : Json} (h : json? b t = some j) :
    j.Distinct := by
  cases t with
  | null => exact Option.some.inj h ▸ .null
  | bool x => exact Option.some.inj h ▸ .bool x
  | number n =>
    obtain ⟨n, -, rfl⟩ := Option.map_eq_some_iff.1 h
    exact .num n
  | text s =>
    obtain ⟨s, -, rfl⟩ := Option.map_eq_some_iff.1 h
    exact .str s
  | list xs =>
    obtain ⟨inner, -, h⟩ := Option.bind_eq_some_iff.1 h
    obtain ⟨js, hjs, h⟩ := Option.bind_eq_some_iff.1 h
    exact Option.some.inj h ▸ .arr (distinct_of_elements? hjs)
  | record ms =>
    obtain ⟨inner, -, h⟩ := Option.bind_eq_some_iff.1 h
    obtain ⟨js, hjs, h⟩ := Option.bind_eq_some_iff.1 h
    obtain ⟨names, members⟩ := putAll_spec js
    exact Option.some.inj h ▸ .obj names fun m hm => distinct_of_members? hjs m (members m hm)

theorem distinct_of_elements? {b : Budget} {ts : List Tree} {js : List Json}
    (h : elements? b ts = some js) : ∀ j ∈ js, j.Distinct := by
  cases ts with
  | nil =>
    obtain rfl := Option.some.inj h
    exact List.forall_mem_nil _
  | cons t ts =>
    obtain ⟨j, hj, h⟩ := Option.bind_eq_some_iff.1 h
    obtain ⟨js', hjs, h⟩ := Option.bind_eq_some_iff.1 h
    obtain rfl := Option.some.inj h
    exact List.forall_mem_cons.2 ⟨distinct_of_json? hj, distinct_of_elements? hjs⟩

theorem distinct_of_members? {b : Budget} {ts : List (Option String × Tree)} {ms : Members}
    (h : members? b ts = some ms) : ∀ m ∈ ms, m.2.Distinct := by
  cases ts with
  | nil =>
    obtain rfl := Option.some.inj h
    exact List.forall_mem_nil _
  | cons t ts =>
    obtain ⟨key, t⟩ := t
    obtain ⟨k, -, h⟩ := Option.bind_eq_some_iff.1 h
    obtain ⟨j, hj, h⟩ := Option.bind_eq_some_iff.1 h
    obtain ⟨ms', hms, h⟩ := Option.bind_eq_some_iff.1 h
    obtain rfl := Option.some.inj h
    exact List.forall_mem_cons.2 ⟨distinct_of_json? hj, distinct_of_members? hms⟩

end

end Tree

/-- A document with distinct names is read from its tree. -/
theorem Json.Distinct.json?_ofJson {j : Json} (h : j.Distinct) :
    (Tree.ofJson j).json? none = some j := by
  induction h with
  | null | bool | num | str => rfl
  | arr _ ih =>
    show (Tree.elements? none _).bind _ = _
    rw [Tree.elements?_ofElements ih]
    rfl
  | obj names _ ih =>
    show (Tree.members? none _).bind _ = _
    rw [Tree.members?_ofMembers ih]
    exact congrArg (fun ms => some (Json.obj ms)) (putAll_of_nodup names)

end FilterSql
