import FilterSql.Proofs.Compiler.Refusals
import FilterSql.Proofs.Plan.Arrivals

/-!
# Tags and discriminators

A segment with a tag goes on from rows of one kind only.  Keys let tags stand on relations whose
target is chosen by row (`Chain.tagged`), and these resolve to a last join with a discriminator for
the tag (`Registry.resolve_last`).  So in all sessions that planning comes to, the join at the end
of a relation has a discriminator just in case its segment has a tag, and joins of tables in between
have none (`Session.Reached.discriminated`); the clause of a join compares the discriminator in the
row from which the join starts (`Session.tags_discriminate`).
-/

namespace FilterSql

open Sql

/-! ## Relations followed to a tag -/

namespace Relation

/-- The property that names the target of a row unless another is declared. -/
def usualDiscriminator (name : String) : Relation → String
  | direct _ => s!"{name}Type"
  | through r => s!"{Text.lowerFirst r.target}Type"

/-- The property that names the target of a row. -/
def discriminatorProperty (name : String) (r : Relation) : String :=
  (r.polymorphic?.bind Polymorphic.discriminator).getD (r.usualDiscriminator name)

/-- What the row before a join has to say if the relation is followed to a tag. -/
def discriminator? (r : Relation) (s : Segment) : Option Discriminator :=
  s.tag.map fun tag => ⟨r.discriminatorProperty s.name, tag⟩

end Relation

namespace Registry

variable {g : Registry} {owner : Entity} {s : Segment}

theorem discriminatorOf_eq {p : Option Polymorphic} {tag : Option String}
    (h : tag.isSome = true → p.isSome = true) (usual : String) : discriminatorOf p tag usual =
      tag.map fun tag => ⟨(p.bind Polymorphic.discriminator).getD usual, tag⟩ := by
  cases tag with
  | none => cases p <;> rfl
  | some tag =>
    obtain ⟨p, rfl⟩ := Option.isSome_iff_exists.1 (h rfl)
    rfl

theorem discriminator_of_resolveDirect {r : DirectRelation} {keys : JoinKeys}
    (h : g.resolveDirect owner s.name s.tag r = .ok keys) (hs : (Relation.direct r).Admits s) :
    keys.discriminator = (Relation.direct r).discriminator? s := by
  have discriminator := discriminatorOf_eq hs s!"{s.name}Type"
  unfold resolveDirect at h
  split at h
  · cases h
  obtain ⟨target, -, h⟩ := bind_eq_ok.1 h
  dsimp only at h
  split at h
  · obtain ⟨keyTo, -, h⟩ := bind_eq_ok.1 h
    obtain rfl := pure_eq_ok.1 h
    exact discriminator
  · obtain ⟨keyFrom, -, h⟩ := bind_eq_ok.1 h
    obtain rfl := pure_eq_ok.1 h
    exact discriminator

/-- Of the two joins of a relation by way of a table, the second has the discriminator. -/
theorem discriminator_of_resolveThrough {r : ThroughRelation} {table last : JoinKeys}
    (h : g.resolveThrough owner s.name s.tag r = .ok (table, last))
    (hs : (Relation.through r).Admits s) :
    table.entity = r.through.entity ∧ table.discriminator = none ∧
      last.discriminator = (Relation.through r).discriminator? s := by
  obtain ⟨middle, hmiddle, h⟩ := bind_eq_ok.1 h
  obtain ⟨declared, hdeclared, h⟩ := bind_eq_ok.1 h
  obtain ⟨_, -, h⟩ := bind_eq_ok.1 h
  obtain ⟨_, -, h⟩ := bind_eq_ok.1 h
  obtain ⟨_, -, h⟩ := bind_eq_ok.1 h
  obtain ⟨rfl, rfl⟩ := Prod.mk.inj (pure_eq_ok.1 h)
  refine ⟨name_of_entity? (targetOf_eq_ok.1 hmiddle), rfl, (discriminatorOf_eq hs _).trans ?_⟩
  rw [Entity.camelName, name_of_entity? (targetOf_eq_ok.1 hdeclared)]
  rfl

/-- The last join of a relation leads to the tag if there is one, and then has a discriminator. -/
theorem resolve_last {r : Relation} {hops : Hops} (h : g.resolve owner s.name s.tag = .ok hops)
    (hr : owner.relation? s.name = some r) (hs : r.Admits s) :
    hops.last.entity = s.tag.getD r.target ∧ hops.last.discriminator = r.discriminator? s ∧
      ((∃ d keys, r = .direct d ∧ hops = .direct keys) ∨
        ∃ t table target, r = .through t ∧ hops = .through table target ∧
          table.entity = t.through.entity ∧ table.discriminator = none) := by
  unfold resolve at h
  rw [hr] at h
  cases r with
  | direct d =>
    obtain ⟨keys, hkeys, rfl⟩ := map_eq_ok.1 h
    exact ⟨(entity_of_resolveDirect hkeys).1, discriminator_of_resolveDirect hkeys hs,
      .inl ⟨d, keys, rfl, rfl⟩⟩
  | through t =>
    obtain ⟨⟨table, target⟩, hkeys, rfl⟩ := map_eq_ok.1 h
    obtain ⟨hentity, hnone, hlast⟩ := discriminator_of_resolveThrough hkeys hs
    exact ⟨(entity_of_resolveThrough hkeys).1, hlast,
      .inr ⟨t, table, target, rfl, rfl, hentity, hnone⟩⟩

end Registry

/-! ## Tags of keys -/

/-- A key lets a tag stand only on a relation whose target is chosen by row. -/
theorem Chain.tagged {g : Registry} {root : Entity} {key : String} {c : Chain}
    (h : Chain.ofKey g root key = .ok c) (hplain : c ≠ .plain) {done : List Segment} {s : Segment}
    (hdone : done ++ [s] <+: c.segments) {owner : Entity} {r : Relation}
    (howner : g.reached? root done = some owner) (hr : owner.relation? s.name = some r) :
    r.Admits s := by
  obtain ⟨segments, w, -, hw, -, hwalk, -⟩ := Chain.walk_of_ofKey h hplain
  exact (walk_eq_ok_iff.1 hw).1.leads.admits_of_prefix (hwalk ▸ hdone) howner hr

namespace Session

variable {g : Registry} {root owner : Entity} {s s' : Session} {x : Crossing}

/-! ## What joins say -/

/-- The join starts from the table at the end of the chain. -/
def StartsAt (root : Entity) (s : Session) (chain : List Segment) (j : Join) : Prop :=
  ∃ anchor, s.EndsAt root chain anchor ∧ j.parentLabel = anchor.label ∧
    j.parentEntity = anchor.entity

/-- The join adds the table in between of the relation that is crossed.  It has no
discriminator. -/
structure Halves (g : Registry) (root : Entity) (s : Session) (x : Crossing) (t : ThroughRelation)
    (j : Join) : Prop where
  relation : x.relation? g root = some (.through t)
  path : j.path = x.halfPath root
  start : s.StartsAt root x.before j
  target : j.target = t.through.entity
  discriminator : j.discriminator = none

/-- Where the last join of a relation starts: at the end of the relations before it, or at the table
in between, which is joined right before it. -/
inductive Follows (g : Registry) (root : Entity) (s : Session) (x : Crossing) :
    Relation → Join → Prop
  | owner {d : DirectRelation} {j : Join} (h : s.StartsAt root x.before j) :
    Follows g root s x (.direct d) j
  | table {t : ThroughRelation} {half j : Join} (hhalf : s.Halves g root x t half)
    (htogether : [half, j] <:+: s.joins) (hlabel : j.parentLabel = half.label)
    (hentity : j.parentEntity = half.target) : Follows g root s x (.through t) j

/-- The join ends the path of the relation that is crossed.  It leads to the tag if the relation has
one, and then says so by a discriminator; otherwise it leads to the declared target without one. -/
structure Concludes (g : Registry) (root : Entity) (s : Session) (x : Crossing) (r : Relation)
    (j : Join) : Prop where
  legible : ∀ t ∈ x.chain, t.Legible
  relation : x.relation? g root = some r
  path : j.path = x.path root
  start : s.Follows g root x r j
  target : j.target = x.last.tag.getD r.target
  discriminator : j.discriminator = r.discriminator? x.last

/-- The join ends the path of a relation, or adds the table in between. -/
def Crosses (g : Registry) (root : Entity) (s : Session) (j : Join) : Prop :=
  ∃ x, (∃ r, s.Concludes g root x r j) ∨ ∃ t, s.Halves g root x t j

/-! ## Sessions grow -/

theorem join?_mono (h : s.joins <+: s'.joins) {path : String} {j : Join}
    (hj : s.join? path = some j) : s'.join? path = some j := by
  obtain ⟨more, hmore⟩ := h
  rw [join?, ← hmore, List.find?_append]
  rw [join?] at hj
  rw [hj, Option.some_or]

theorem EndsAt.mono (h : s.joins <+: s'.joins) {chain : List Segment} {anchor : Anchor}
    (hat : s.EndsAt root chain anchor) : s'.EndsAt root chain anchor :=
  ⟨hat.1, fun hne => (hat.2 hne).imp fun _ hj => ⟨join?_mono h hj.1, hj.2⟩⟩

theorem StartsAt.mono (h : s.joins <+: s'.joins) {chain : List Segment} {j : Join}
    (hj : s.StartsAt root chain j) : s'.StartsAt root chain j := by
  obtain ⟨anchor, hat, hlabel, hentity⟩ := hj
  exact ⟨anchor, hat.mono h, hlabel, hentity⟩

theorem Halves.mono (h : s.joins <+: s'.joins) {t : ThroughRelation} {j : Join}
    (hj : s.Halves g root x t j) : s'.Halves g root x t j :=
  { hj with start := hj.start.mono h }

theorem Follows.mono (h : s.joins <+: s'.joins) {r : Relation} {j : Join}
    (hj : s.Follows g root x r j) : s'.Follows g root x r j := by
  cases hj with
  | owner hstart => exact .owner (hstart.mono h)
  | table hhalf htogether hlabel hentity =>
    exact .table (hhalf.mono h) (htogether.trans h.isInfix) hlabel hentity

theorem Crosses.mono (h : s.joins <+: s'.joins) {j : Join} (hj : s.Crosses g root j) :
    s'.Crosses g root j := by
  obtain ⟨x, ⟨r, hr⟩ | ⟨t, ht⟩⟩ := hj
  · exact ⟨x, .inl ⟨r, { hr with start := hr.start.mono h }⟩⟩
  · exact ⟨x, .inr ⟨t, ht.mono h⟩⟩

/-! ## Planning keeps discriminators -/

/-- Every join ends the path of a relation, or adds the table in between. -/
def Discriminated (g : Registry) (root : Entity) (s : Session) : Prop :=
  ∀ j ∈ s.joins, s.Crosses g root j

/-- The joins of a relation cross it as soon as they are planned one after the other. -/
theorem crosses_joinsAt {hops : Hops} {anchor : Anchor} {stem : String} {middle : List Join}
    {last : Join} (hx : ∀ t ∈ x.chain, t.Legible)
    (howner : g.reached? root x.before = some owner)
    (hadmits : ∀ r, owner.relation? x.last.name = some r → r.Admits x.last)
    (hres : g.resolve owner x.last.name x.last.tag = .ok hops)
    (hat : s.EndsAt root x.before anchor)
    (hjoins : g.joinsAt anchor (x.path root) stem x.last hops = .ok (middle, last))
    (hplanned : middle ++ [last] <:+: s.joins) :
    ∀ j ∈ middle ++ [last], s.Crosses g root j := by
  obtain ⟨r, hr, -⟩ := Registry.resolve_cases hres
  have relation : x.relation? g root = some r := by
    rw [Crossing.relation?, howner, Option.bind_some, hr]
  obtain ⟨hentity, hdiscriminator, hcases⟩ := Registry.resolve_last hres hr (hadmits r hr)
  intro j hj
  refine ⟨x, ?_⟩
  obtain ⟨keys, rfl, rfl, hlast⟩ | ⟨table, target, half, rfl, rfl, hhalf, hlast⟩ :=
    Registry.joinsAt_cases hjoins
  · obtain ⟨d, keys', rfl, -⟩ | ⟨t, table, target, -, hthrough, -⟩ := hcases
    · obtain rfl : j = last := by simpa using hj
      obtain ⟨e, he, rfl⟩ := Registry.joinAt_eq_ok.1 hlast
      exact .inl ⟨_, hx, relation, rfl, .owner ⟨anchor, hat, rfl, rfl⟩, hentity, hdiscriminator⟩
    · cases hthrough
  · obtain ⟨d, keys, -, hdirect⟩ | ⟨t, table', target', rfl, hthrough, hmiddle, hnone⟩ := hcases
    · cases hdirect
    obtain ⟨rfl, -⟩ := Hops.through.inj hthrough
    have between : s.Halves g root x t half := by
      obtain ⟨e, he, rfl⟩ := Registry.joinAt_eq_ok.1 hhalf
      exact ⟨relation, by rw [hat.1]; rfl, ⟨anchor, hat, rfl, rfl⟩, hmiddle, hnone⟩
    obtain rfl | rfl : j = half ∨ j = last := by simpa using hj
    · exact .inr ⟨t, between⟩
    · obtain ⟨e, he, rfl⟩ := Registry.joinAt_eq_ok.1 hlast
      exact .inl ⟨_, hx, relation, rfl, .table between hplanned rfl rfl, hentity, hdiscriminator⟩

theorem Discriminated.planHop {key : String} {depth : Nat} {hops : Hops} {anchor anchor' : Anchor}
    (h : s.Discriminated g root) (hx : ∀ t ∈ x.chain, t.Legible)
    (howner : g.reached? root x.before = some owner)
    (hadmits : ∀ r, owner.relation? x.last.name = some r → r.Admits x.last)
    (hres : g.resolve owner x.last.name x.last.tag = .ok hops) (hat : s.EndsAt root x.before anchor)
    (hop : Session.planHop g root key depth x.last hops anchor s = .ok anchor' s') :
    s'.Discriminated g root := by
  obtain ⟨-, -, rfl, -⟩ | ⟨stem, middle, last, -, -, hjoins, rfl, -⟩ := planHop_cases hop
  · exact h
  have joins : (s.draw.2.addJoins (middle ++ [last])).joins = s.joins ++ (middle ++ [last]) := rfl
  have grows : s.joins <+: (s.draw.2.addJoins (middle ++ [last])).joins := List.prefix_append _ _
  have path : s!"{anchor.path}.{x.last.text}" = x.path root := by
    rw [hat.1, x.path_eq]
  intro j hj
  obtain hj | hj := List.mem_append.1 (joins ▸ hj)
  · exact (h j hj).mono grows
  · exact crosses_joinsAt hx howner hadmits hres (hat.mono grows) (path ▸ hjoins)
      (List.suffix_append s.joins _).isInfix j hj

theorem Discriminated.planKey {scope : Scope} {key : String} (h : s.Discriminated g root)
    (hkey : Session.planKey g root scope s key = .ok s') : s'.Discriminated g root := by
  obtain rfl | ⟨c, hops, s₁, anchor, hc, hplain, hhops, hrun, rfl⟩ := planKey_cases hkey
  · exact h
  have legible := (Chain.ofKey_reached hc).1
  obtain ⟨discriminated, -⟩ : s₁.Discriminated g root ∧ s₁.EndsAt root c.segments anchor := by
    refine planHops_along (I := fun done t a => t.Discriminated g root ∧ t.EndsAt root done a) ?_
      hhops ⟨h, endsAt_root root s⟩ hrun
    intro done t owner hops s anchor s' anchor' hdone howner hres hI hhop
    obtain ⟨hdiscriminated, hat⟩ := hI
    exact ⟨hdiscriminated.planHop (x := ⟨done, t⟩) (fun u hu => legible u (hdone.subset hu)) howner
      (fun r => Chain.tagged hc hplain hdone howner) hres hat hhop, hat.planHop hhop⟩
  have joins := joins_setEndpoint s₁ scope key ⟨anchor.stem, anchor.label, anchor.entity, c.rest?⟩
  intro j hj
  exact (discriminated j (joins ▸ hj)).mono (joins ▸ List.prefix_rfl)

/-- In all sessions that planning comes to, joins say by a discriminator whether they were planned
for a tag. -/
theorem Reached.discriminated (h : Reached g root s) : s.Discriminated g root := by
  induction h with
  | fresh => simp [Discriminated]
  | key _ hkey ih => exact ih.planKey hkey

/-! ## Clauses -/

/-- What the clause of a join says of its discriminator: the column of it, in the row from which the
join starts, is the tag. -/
def discriminating (parent : Entity) (j : Join) : List Expr :=
  match j.discriminator with
  | some d =>
    [.compare (.column ⟨some j.parentLabel, parent.column d.property⟩) .eq
      (.value (.string d.value))]
  | none => []

/-- The clause is that of the join: it compares the keys, and the discriminator if there is one. -/
def Renders (g : Registry) (j : Join) (clause : JoinClause) : Prop :=
  ∃ parent target, g.entity? j.parentEntity = some parent ∧ g.entity? j.target = some target ∧
    clause.label = some j.label ∧ clause.table = target.storage ∧
    clause.condition = .and (.compare (parent.columnExpr (some j.parentLabel) j.keyFrom) .eq
      (target.columnExpr (some j.label) j.keyTo) :: discriminating parent j)

theorem renders_joinClause {j : Join} {clause : JoinClause} (h : g.joinClause j = .ok clause) :
    Renders g j clause := by
  obtain ⟨parent, hparent, h⟩ := bind_eq_ok.1 h
  obtain ⟨target, htarget, h⟩ := bind_eq_ok.1 h
  obtain rfl := pure_eq_ok.1 h
  refine ⟨parent, target, Registry.entity_eq_ok.1 (ofSchema_eq_ok.1 hparent),
    Registry.entity_eq_ok.1 (ofSchema_eq_ok.1 htarget), rfl, rfl, ?_⟩
  unfold discriminating
  cases j.discriminator <;> rfl

theorem renders_joinClauses {clauses : List JoinClause} (h : g.joinClauses s = .ok clauses) :
    List.Forall₂ (Renders g) s.joins clauses :=
  (mapM_eq_ok.1 h).imp fun _ _ hclause => renders_joinClause hclause

/-- In all sessions that planning comes to, each join ends the path of a relation or adds the table
in between.  A join of the first kind has a discriminator just in case the last segment of the path
has a tag: the declared property, or else the usual one, has to be the tag, and it leads to the tag;
one of the second kind has none.  The clauses of the joins can be made, and compare the
discriminator in the row from which the join starts. -/
theorem tags_discriminate (hroot : g.entity? root.name = some root) (h : Reached g root s) :
    (∀ j ∈ s.joins, s.Crosses g root j) ∧
      ∃ clauses, g.joinClauses s = .ok clauses ∧ List.Forall₂ (Renders g) s.joins clauses := by
  obtain ⟨clauses, hclauses⟩ := (h.grounded hroot).exists_joinClauses
  exact ⟨h.discriminated, clauses, hclauses, renders_joinClauses hclauses⟩

/-- Ships with cargo of several kinds, and with crews of several kinds by way of duties. -/
def ships : Registry := ⟨.ofList [
  { name := "Ship", properties := [{ name := "id", isId := true }],
    relations := .ofList [
      ("cargo", .direct ⟨.belongsTo, "Parcel", none, none, some ⟨none⟩⟩),
      ("crew", .through ⟨"Sailor", none, none, ⟨"Duty", none, none, some ⟨none⟩⟩⟩)] },
  { name := "Parcel", properties := [{ name := "id", isId := true }, { name := "title" }] },
  { name := "Sailor", properties := [{ name := "id", isId := true }, { name := "name" }] },
  { name := "Officer", properties := [{ name := "id", isId := true }, { name := "name" }] },
  { name := "Duty" }]⟩

/-- Conditions on cargo and crew of one kind. -/
def shipClause : Members := [("cargo(Parcel).title", .str "a"), ("crew(Officer).name", .str "b")]

theorem tags_discriminate_ships : ∃ root s, ships.entity? "Ship" = some root ∧
    plan ships root shipClause [] {} = (s, .ok ()) ∧
    s.joins.map (·.discriminator) =
      [some ⟨"cargoType", "Parcel"⟩, none, some ⟨"sailorType", "Officer"⟩] ∧
    (∀ j ∈ s.joins, s.Crosses ships root j) ∧
      ∃ clauses, ships.joinClauses s = .ok clauses ∧
        List.Forall₂ (Renders ships) s.joins clauses := by
  have outcome : (ships.entity? "Ship").map (fun root => (root.name,
      (plan ships root shipClause [] {}).map (fun s => s.joins.map (·.discriminator)) id)) =
      some ("Ship", [some ⟨"cargoType", "Parcel"⟩, none, some ⟨"sailorType", "Officer"⟩],
        .ok ()) := by
    decide +kernel
  obtain ⟨root, hroot, h⟩ := Option.map_eq_some_iff.1 outcome
  obtain ⟨hname, h⟩ := Prod.mk.inj h
  have registered : ships.entity? root.name = some root := by rw [hname, hroot]
  generalize hplan : plan ships root shipClause [] {} = planned at h
  obtain ⟨s, r⟩ := planned
  obtain ⟨hdiscriminators, rfl⟩ := Prod.mk.inj h
  exact ⟨root, s, hroot, hplan, hdiscriminators,
    tags_discriminate registered (Reached.of_plan hplan)⟩

end Session

end FilterSql
