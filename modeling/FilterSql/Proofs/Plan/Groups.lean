import FilterSql.Proofs.Plan.Replay

/-!
# Groups of planned joins

The joins of a session make groups, one for each number that was drawn.  A group holds the joins of
one relation (`Crossing.Joined`): their stems tell the number and how many relations come before,
and the first of them starts from the root or from a join of an earlier group.  Whatever a session
is asked to plan, and whether or not it can, its joins make such groups (`groups_of_joins`).
-/

namespace FilterSql

/-! ## Stems -/

/-- What labels begin with that are planned under a number, `depth` relations from the root. -/
def stemOf (number depth : Nat) : String := s!"t_{Text.natural number}_{Text.natural depth}_"

theorem Text.naturalChars_injective {m n : Nat} (h : naturalChars m = naturalChars n) : m = n := by
  have read (k : Nat) : Nat.ofDigitChars 10 (naturalChars k) 0 = k := Nat.ofDigitChars_ten_toDigits
  rw [← read m, h, read]

theorem Text.ne_underscore_of_mem_naturalChars {n : Nat} {c : Char} (h : c ∈ naturalChars n) :
    (c != '_') = true := by
  have digit : c.isDigit = true := Nat.isDigit_of_mem_toDigits (by decide) (by decide) h
  refine bne_iff_ne.2 ?_
  rintro rfl
  exact absurd digit (by decide)

/-- A label tells its number. -/
theorem number_eq_of_label {m n d e : Nat} {table table' : String}
    (h : stemOf m d ++ table = stemOf n e ++ table') : m = n := by
  have chars (k d : Nat) (table : String) : ∃ rest, (stemOf k d ++ table).toList =
      't' :: '_' :: (Text.naturalChars k ++ '_' :: rest) := by
    refine ⟨Text.naturalChars d ++ '_' :: table.toList, ?_⟩
    simp [stemOf, Text.natural, toString]
  have digits (k : Nat) (rest : List Char) :
      (Text.naturalChars k ++ '_' :: rest).takeWhile (· != '_') = Text.naturalChars k := by
    rw [List.takeWhile_append_of_pos fun c => Text.ne_underscore_of_mem_naturalChars]
    simp
  obtain ⟨rest, hm⟩ := chars m d table
  obtain ⟨rest', hn⟩ := chars n e table'
  rw [h, hn] at hm
  have text := (List.cons.inj (List.cons.inj hm).2).2
  exact (Text.naturalChars_injective (by rw [← digits n rest', text, digits])).symm

/-- Stems tell their numbers. -/
theorem number_eq_of_stem {m n d e : Nat} (h : stemOf m d = stemOf n e) : m = n := by
  have labels : stemOf m d ++ "" = stemOf n e ++ "" := by rw [h]
  exact number_eq_of_label labels

/-! ## One group -/

/-- The join starts from the table. -/
structure Join.StartsFrom (anchor : Anchor) (j : Join) : Prop where
  stem : j.parentStem = anchor.stem
  label : j.parentLabel = anchor.label
  entity : j.parentEntity = anchor.entity

/-- The joins are those of the relation that is crossed, planned under the number after others: one
join, or that of the table in between and one that starts from it.  The first of them starts from
the root, or from the join of the relations before. -/
structure Crossing.Joined (g : Registry) (root : Entity) (number : Nat) (earlier joins : List Join)
    (x : Crossing) : Prop where
  legible : ∀ s ∈ x.chain, s.Legible
  shape : (∃ r j, x.relation? g root = some (.direct r) ∧ joins = [j] ∧ j.path = x.path root) ∨
    ∃ r half last, x.relation? g root = some (.through r) ∧ joins = [half, last] ∧
      half.path = x.halfPath root ∧ last.path = x.path root ∧ last.StartsFrom (.ofJoin half)
  stems : ∀ j ∈ joins, j.stem = stemOf number x.before.length
  labels : ∀ j ∈ joins, ∃ e, g.entity? j.target = some e ∧ j.label = j.stem ++ e.tableName
  start : ∀ j ∈ joins.head?, (x.before = [] ∧ j.StartsFrom (.ofRoot root)) ∨
    ∃ k ∈ earlier, k.path = chainPath root x.before ∧ j.StartsFrom (.ofJoin k)

section

variable {g : Registry} {root owner : Entity} {x : Crossing} {anchor : Anchor} {path stem : String}

theorem Registry.startsFrom_joinAt {relation : String} {keys : JoinKeys} {j : Join}
    (h : g.joinAt anchor path stem relation keys = .ok j) :
    j.path = path ∧ j.stem = stem ∧ j.StartsFrom anchor ∧
      ∃ e, g.entity? j.target = some e ∧ j.label = j.stem ++ e.tableName := by
  obtain ⟨target, htarget, rfl⟩ := joinAt_eq_ok.1 h
  exact ⟨rfl, rfl, ⟨rfl, rfl, rfl⟩, target, htarget, rfl⟩

/-- The joins that are planned for a relation are a group of it. -/
theorem Crossing.joined_joinsAt {number : Nat} {hops : Hops} {earlier middle : List Join}
    {last : Join} (legible : ∀ s ∈ x.chain, s.Legible)
    (howner : g.reached? root x.before = some owner)
    (hres : g.resolve owner x.last.name x.last.tag = .ok hops)
    (hpath : anchor.path = chainPath root x.before)
    (hstart : (x.before = [] ∧ anchor = .ofRoot root) ∨
      ∃ k ∈ earlier, k.path = chainPath root x.before ∧ anchor = .ofJoin k)
    (h : g.joinsAt anchor (x.path root) (stemOf number x.before.length) x.last hops =
      .ok (middle, last)) :
    x.Joined g root number earlier (middle ++ [last]) := by
  have start {j : Join} (hj : j.StartsFrom anchor) :
      (x.before = [] ∧ j.StartsFrom (.ofRoot root)) ∨
        ∃ k ∈ earlier, k.path = chainPath root x.before ∧ j.StartsFrom (.ofJoin k) := by
    obtain ⟨hbefore, rfl⟩ | ⟨k, hk, hkpath, rfl⟩ := hstart
    · exact .inl ⟨hbefore, hj⟩
    · exact .inr ⟨k, hk, hkpath, hj⟩
  obtain ⟨r, hr, kinds, -⟩ := Registry.resolve_cases hres
  have relation : x.relation? g root = some r := by rw [Crossing.relation?, howner]; exact hr
  obtain ⟨keys, rfl, rfl, hlast⟩ | ⟨table, target, half, rfl, rfl, hhalf, hlast⟩ :=
    Registry.joinsAt_cases h
  · obtain ⟨d, _, rfl, -⟩ | ⟨t, _, _, -, hhops⟩ := kinds
    · obtain ⟨path, stem, starts, label⟩ := Registry.startsFrom_joinAt hlast
      exact ⟨legible, .inl ⟨d, last, relation, rfl, path⟩, by simpa using stem,
        by simpa using label, by simpa using start starts⟩
    · cases hhops
  · obtain ⟨d, _, -, hhops⟩ | ⟨t, _, _, rfl, -⟩ := kinds
    · cases hhops
    · obtain ⟨halfPath, halfStem, starts, halfLabel⟩ := Registry.startsFrom_joinAt hhalf
      obtain ⟨path, stem, follows, label⟩ := Registry.startsFrom_joinAt hlast
      have between : half.path = x.halfPath root := by rw [halfPath, hpath]; rfl
      exact ⟨legible, .inr ⟨t, half, last, relation, rfl, between, path, follows⟩,
        by simpa using ⟨halfStem, stem⟩, by simpa using ⟨halfLabel, label⟩,
        by simpa using start starts⟩

end

/-! ## The groups of a session -/

theorem getElem?_concat_eq_some {α : Type} {xs : List α} {x y : α} {n : Nat} :
    (xs ++ [x])[n]? = some y ↔ xs[n]? = some y ∨ (n = xs.length ∧ x = y) := by
  rw [List.getElem?_append]
  split
  · rename_i hlt
    simp [Nat.ne_of_lt hlt]
  · rename_i hle
    have none : xs[n]? = none := List.getElem?_eq_none (by omega)
    have here : n - xs.length = 0 ↔ n = xs.length := by omega
    simp [none, here, List.getElem?_singleton]

/-- A request to plan a key, or the keys of a filter. -/
inductive Request where
  | key (scope : Scope) (key : String)
  | filter (clause : Option Members) (order : List String)

namespace Session

variable {g : Registry} {root : Entity} {scope : Scope} {key : String} {s s' : Session}

/-- The session after a request, whether or not it succeeds. -/
def serve (g : Registry) (root : Entity) (s : Session) : Request → Session
  | .key scope key => (outcome (planning g root scope key) s).1
  | .filter clause order => (plan g root clause order s).1

/-- The session after requests in turn. -/
def after (g : Registry) (root : Entity) (requests : List Request) : Session :=
  requests.foldl (serve g root) {}

theorem reached_after (g : Registry) (root : Entity) (requests : List Request) :
    Reached g root (after g root requests) := by
  have served : ∀ s, Reached g root s → Reached g root (requests.foldl (serve g root) s) := by
    induction requests with
    | nil => exact fun s h => h
    | cons request requests ih =>
      refine fun s h => ih _ ?_
      cases request with
      | filter clause order => exact h.plan clause order
      | key scope key =>
        show Reached g root (outcome (planning g root scope key) s).1
        rw [outcome_planning]
        cases hkey : planKey g root scope s key with
        | ok s' => exact h.key hkey
        | error e => exact h
  exact served {} .fresh

/-- The joins make groups under the numbers that were drawn, one after the other. -/
def Grouped (g : Registry) (root : Entity) (s : Session) : Prop :=
  ∃ groups : List (List Join), s.joins = groups.flatten ∧ groups.length = s.next ∧
    ∀ n joins, groups[n]? = some joins → ∃ x : Crossing,
      x.Joined g root n (groups.take n).flatten joins

theorem grouped_fresh (g : Registry) (root : Entity) : Grouped g root {} :=
  ⟨[], rfl, rfl, by simp⟩

/-- A group under the next number may be added, if it starts from the joins there are. -/
theorem Grouped.add {x : Crossing} {joins : List Join} (h : s.Grouped g root)
    (hx : x.Joined g root s.next s.joins joins) : (s.draw.2.addJoins joins).Grouped g root := by
  obtain ⟨groups, hflat, hlength, hgroups⟩ := h
  refine ⟨groups ++ [joins], ?_, ?_, fun n js hn => ?_⟩
  · rw [List.flatten_append, ← hflat, List.flatten_singleton]
    rfl
  · rw [List.length_append, hlength]
    rfl
  · obtain hn | ⟨rfl, rfl⟩ := getElem?_concat_eq_some.1 hn
    · obtain ⟨hlt, -⟩ := List.getElem?_eq_some_iff.1 hn
      rw [List.take_append_of_le_length (Nat.le_of_lt hlt)]
      exact hgroups n js hn
    · rw [List.take_left, ← hflat, hlength]
      exact ⟨x, hx⟩

/-- A relation reuses a join, or adds a group. -/
theorem Grouped.planHop {x : Crossing} {owner : Entity} {hops : Hops} {anchor anchor' : Anchor}
    (h : s.Grouped g root) (legible : ∀ t ∈ x.chain, t.Legible)
    (howner : g.reached? root x.before = some owner)
    (hres : g.resolve owner x.last.name x.last.tag = .ok hops)
    (hends : s.EndsAt root x.before anchor) (hroot : x.before = [] → anchor = .ofRoot root)
    (hop : Session.planHop g root key x.before.length x.last hops anchor s = .ok anchor' s') :
    s'.Grouped g root := by
  obtain ⟨j, -, rfl, -⟩ | ⟨stem, middle, last, -, rfl, hjoins, rfl, -⟩ := planHop_cases hop
  · exact h
  have path : s!"{anchor.path}.{x.last.text}" = x.path root := by rw [hends.1, x.path_eq]
  rw [path] at hjoins
  refine h.add (x.joined_joinsAt legible howner hres hends.1 ?_ hjoins)
  by_cases hbefore : x.before = []
  · exact .inl ⟨hbefore, hroot hbefore⟩
  · obtain ⟨k, hk, hanchor⟩ := hends.2 hbefore
    obtain ⟨hmem, hkpath⟩ := join?_eq_some hk
    exact .inr ⟨k, hmem, hkpath, hanchor⟩

theorem grouped_setEndpoint {e : Endpoint} :
    (s.setEndpoint scope key e).Grouped g root ↔ s.Grouped g root := by
  cases scope <;> rfl

theorem Grouped.planKey (h : s.Grouped g root)
    (hkey : Session.planKey g root scope s key = .ok s') : s'.Grouped g root := by
  obtain rfl | ⟨c, hops, s₁, anchor, hc, -, hhops, hrun, rfl⟩ := planKey_cases hkey
  · exact h
  have legible := (Chain.ofKey_reached hc).1
  rw [grouped_setEndpoint]
  refine (planHops_along (I := fun done t a => t.Grouped g root ∧ t.EndsAt root done a ∧
    (done = [] → a = .ofRoot root)) ?_ hhops ⟨h, endsAt_root root s, fun _ => rfl⟩ hrun).1
  intro done t owner hops s anchor s' anchor' hdone howner hres hI hhop
  obtain ⟨hgrouped, hends, hroot⟩ := hI
  exact ⟨hgrouped.planHop (x := ⟨done, t⟩) (fun u hu => legible u (hdone.subset hu)) howner hres
    hends hroot hhop, hends.planHop hhop, by simp⟩

theorem Reached.grouped (h : Reached g root s) : s.Grouped g root := by
  induction h with
  | fresh => exact grouped_fresh g root
  | key _ hkey ih => exact ih.planKey hkey

/-- After any requests, the joins are groups, as many as numbers were drawn.  Each group holds the
joins of one relation, with stems that no other group has, and starts from the root or from a join
of an earlier group. -/
theorem groups_of_joins (g : Registry) (root : Entity) (requests : List Request) :
    ∃ groups : List (List Join), (after g root requests).joins = groups.flatten ∧
      groups.length = (after g root requests).next ∧
      (∀ n joins, groups[n]? = some joins → ∃ x : Crossing,
        x.Joined g root n (groups.take n).flatten joins) ∧
      ∀ (m n : Nat) (js ks : List Join), groups[m]? = some js →
        groups[n]? = some ks → m ≠ n → ∀ j ∈ js, ∀ k ∈ ks, j.stem ≠ k.stem := by
  obtain ⟨groups, hflat, hlength, hgroups⟩ := (reached_after g root requests).grouped
  refine ⟨groups, hflat, hlength, hgroups, fun m n js ks hm hn hne j hj k hk hstem => hne ?_⟩
  obtain ⟨x, hx⟩ := hgroups m js hm
  obtain ⟨y, hy⟩ := hgroups n ks hn
  rw [hx.stems j hj, hy.stems k hk] at hstem
  exact number_eq_of_stem hstem

end Session

end FilterSql
