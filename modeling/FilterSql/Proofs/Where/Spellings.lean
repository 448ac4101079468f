import FilterSql.Proofs.Sql.Atoms
import FilterSql.Proofs.Where.Blank
import FilterSql.Proofs.Where.Members

/-!
# Spellings of a tree

A tree may spell one group in several ways (`Respelled`): the members of `and` may stand among the
members around it, and the mapping of `or` may be the list of its members, each alone.  Both
spellings mention the same keys in the same order (`FilterKey.mentions_respelled`).  They need not
compile to the same expression, where a conjunction inside a conjunction is one more level, but to
expressions of the same text (`View.compile_respelled`).
-/

namespace FilterSql

open Sql

/-- What the members of a mapping are: conditions taken together, arms each of its own, or operators
on a key. -/
inductive Place where
  | clause
  | arms
  | operators

/-- What the members of a mapping are that is the value of a group. -/
def Place.below (group : String) : Place := if group == "or" then .arms else .clause

/-- Does the name stand for a group?  Among operators on a key, negation does not: it is about the
operators in its value. -/
def Place.HasGroup : Place → String → Prop
  | operators, name => name = "and" ∨ name = "or"
  | _, name => isGroup name = true

/-- The second mapping spells one group of the first in another way. -/
inductive Respelled : Place → Members → Members → Prop
  /-- The members of `and` stand in its place. -/
  | splice (inner : Members) : Respelled .clause [("and", .obj inner)] inner
  /-- The arms of `or` stand in a list. -/
  | arms {place : Place} (inner : Members) :
    Respelled place [("or", .obj inner)] [("or", .arr (inner.map fun m => .obj [m]))]
  /-- Other members stand before and after. -/
  | among {place : Place} {ms ms' : Members} (before after : Members) (h : Respelled place ms ms') :
    Respelled place (before ++ ms ++ after) (before ++ ms' ++ after)
  /-- The mapping is the value of a group. -/
  | mapping {place : Place} {name : String} {ms ms' : Members} (hname : place.HasGroup name)
    (h : Respelled (.below name) ms ms') : Respelled place [(name, .obj ms)] [(name, .obj ms')]
  /-- The mapping is an element of the value of a group. -/
  | element {place : Place} {name : String} {ms ms' : Members} (hname : place.HasGroup name)
    (before after : List Json) (h : Respelled .clause ms ms') :
    Respelled place [(name, .arr (before ++ .obj ms :: after))]
      [(name, .arr (before ++ .obj ms' :: after))]
  /-- The mapping holds the operators on a key. -/
  | key {place : Place} {name : String} {ms ms' : Members} (hplace : place ≠ .operators)
    (hname : isGroup name = false) (hexpr : name ≠ exprDirective)
    (h : Respelled .operators ms ms') : Respelled place [(name, .obj ms)] [(name, .obj ms')]
  /-- The mapping holds the operators that one on a key negates. -/
  | negation {name : String} {ms ms' : Members} (hname : name = "not" ∨ name = "!")
    (h : Respelled .operators ms ms') :
    Respelled .operators [(name, .obj ms)] [(name, .obj ms')]

theorem Place.below_ne_operators (group : String) : Place.below group ≠ .operators := by
  unfold below
  split_ifs <;> simp

theorem Place.HasGroup.isGroup {place : Place} {name : String} (h : place.HasGroup name) :
    isGroup name = true := by
  cases place with
  | operators => obtain rfl | rfl := h <;> rfl
  | clause | arms => exact h

/-! ## Keys -/

namespace FilterKey

theorem mentions_append (before after : Members) :
    mentions (before ++ after) = both (mentions before) (mentions after) := by
  induction before with
  | nil => exact (nil_both _).symm
  | cons m before ih =>
    obtain ⟨name, value⟩ := m
    rw [List.cons_append, mentions_cons, ih, mentions_cons, both_assoc]

theorem armMentions_append (before after : List Json) :
    armMentions (before ++ after) = both (armMentions before) (armMentions after) := by
  induction before with
  | nil => exact (nil_both _).symm
  | cons x before ih =>
    rw [List.cons_append, armMentions_cons, ih, armMentions_cons, both_assoc]

theorem mentions_group {name : String} (hname : isGroup name = true) (value : Json) :
    mentions [(name, value)] = groupMentions value := by
  rw [mentions_cons, ofMemberOrGroup, if_pos hname]
  exact both_nil _

theorem armMentions_singletons (ms : Members) :
    armMentions (ms.map fun m => .obj [m]) = mentions ms := by
  induction ms with
  | nil => rfl
  | cons m ms ih =>
    have here : elementMentions (.obj [m]) = mentions [m] := rfl
    rw [List.map_cons, armMentions_cons, here, ih, ← mentions_append, List.singleton_append]

/-- Both spellings mention the same keys in the same order, or are refused for the same member. -/
theorem mentions_respelled {place : Place} {ms ms' : Members} (h : Respelled place ms ms')
    (hplace : place ≠ .operators) : mentions ms = mentions ms' := by
  induction h with
  | splice inner => exact mentions_group rfl (.obj inner)
  | arms inner =>
    rw [mentions_group rfl, mentions_group rfl]
    exact (armMentions_singletons inner).symm
  | among before after _ ih => simp only [mentions_append, ih hplace]
  | @mapping _ name _ _ hname _ ih =>
    rw [mentions_group hname.isGroup, mentions_group hname.isGroup]
    exact ih (Place.below_ne_operators name)
  | @element _ _ ms ms' hname before after _ ih =>
    have here : elementMentions (.obj ms) = elementMentions (.obj ms') := ih (by simp)
    rw [mentions_group hname.isGroup, mentions_group hname.isGroup, groupMentions, groupMentions,
      armMentions_append, armMentions_append, armMentions_cons, armMentions_cons, here]
  | @key _ name ms ms' _ hname hexpr _ _ =>
    -- A key is mentioned whatever its operators are.
    have here (ms : Members) : ofMember name (.obj ms) = ofMember name (.obj []) := by
      rw [ofMember, ofMember, if_neg hexpr, if_neg hexpr]
      rfl
    rw [mentions_cons, mentions_cons, ofMemberOrGroup, ofMemberOrGroup, here ms, here ms', hname]
    rfl
  | negation => exact absurd rfl hplace

end FilterKey

/-! ## Texts of conjunctions -/

namespace Sql.Expr

variable {d : Dialect}

/-- The expressions have the same text. -/
def SamePrint (d : Dialect) (e e' : Option Expr) : Prop := e.map (pieces d) = e'.map (pieces d)

/-- The expressions have the same texts, one by one. -/
def SamePrints (d : Dialect) (es es' : List Expr) : Prop := es.map (pieces d) = es'.map (pieces d)

/-- The conjunctions of the expressions have the same text. -/
def SameConjunction (d : Dialect) (es es' : List Expr) : Prop :=
  SamePrint d (conjunction es) (conjunction es')

theorem map_pieces_conjunction {es : List Expr} (h : es ≠ []) :
    (conjunction es).map (pieces d) = some (listPieces d " and " es) := by
  match es, h with
  | [e], _ => rfl
  | e :: f :: es, _ => rfl

/-- The text of a conjunction does not show where one part of its list ends and the next begins. -/
theorem map_pieces_conjunction_append (es fs : List Expr) :
    (conjunction (es ++ fs)).map (pieces d) =
      Option.merge (fun ps qs => ps ++ .fixed " and " :: qs)
        ((conjunction es).map (pieces d)) ((conjunction fs).map (pieces d)) := by
  by_cases he : es = []
  · subst he
    exact Option.merge_none_left.symm
  by_cases hf : fs = []
  · subst hf
    rw [List.append_nil]
    exact Option.merge_none_right.symm
  rw [map_pieces_conjunction (by simp [he]), map_pieces_conjunction he, map_pieces_conjunction hf,
    listPieces_append he hf]
  rfl

theorem conjunction_toList (e : Option Expr) : conjunction e.toList = e := by
  cases e <;> rfl

theorem SameConjunction.append {es es' fs fs' : List Expr} (he : SameConjunction d es es')
    (hf : SameConjunction d fs fs') : SameConjunction d (es ++ fs) (es' ++ fs') := by
  unfold SameConjunction SamePrint at he hf ⊢
  rw [map_pieces_conjunction_append, map_pieces_conjunction_append, he, hf]

namespace SamePrints

variable {es es' fs fs' : List Expr}

theorem append (he : SamePrints d es es') (hf : SamePrints d fs fs') :
    SamePrints d (es ++ fs) (es' ++ fs') := by
  unfold SamePrints at he hf ⊢
  rw [List.map_append, List.map_append, he, hf]

theorem and (h : SamePrints d es es') : (Expr.and es).pieces d = (Expr.and es').pieces d :=
  listPieces_congr h

theorem or (h : SamePrints d es es') : (Expr.or es).pieces d = (Expr.or es').pieces d :=
  listPieces_congr h

end SamePrints

namespace SamePrint

variable {e e' : Option Expr}

theorem toList (h : SamePrint d e e') : SamePrints d e.toList e'.toList := by
  have lists (e : Option Expr) : e.toList.map (pieces d) = (e.map (pieces d)).toList := by
    cases e <;> rfl
  rw [SamePrints, lists, lists, h]

theorem sameConjunction (h : SamePrint d e e') : SameConjunction d e.toList e'.toList := by
  rw [SameConjunction, conjunction_toList, conjunction_toList]
  exact h

theorem not (h : SamePrint d e e') : SamePrint d (e.map .not) (e'.map .not) := by
  have negated (e : Option Expr) : (e.map .not).map (pieces d) =
      (e.map (pieces d)).map fun ps => .fixed "not (" :: (ps ++ [.fixed ")"]) := by
    cases e <;> rfl
  rw [SamePrint, negated, negated, h]

end SamePrint

end Sql.Expr

/-! ## Conditions -/

open Sql.Expr

/-- The text of a group depends on the texts of its arms. -/
theorem GroupValue.samePrint_group {d : Dialect} {join : List Expr → Expr}
    (hjoin : ∀ {es es'}, SamePrints d es es' → (join es).pieces d = (join es').pieces d)
    {es es' : List Expr} (h : SamePrints d es es') :
    SamePrint d (group join es) (group join es') := by
  cases es with
  | nil =>
    obtain rfl := List.map_eq_nil_iff.1 h.symm
    rfl
  | cons e es =>
    obtain ⟨e', es', rfl, -, -⟩ := List.map_eq_cons_iff.1 h.symm
    have wrapped (es : List Expr) : (es.map Expr.nested).map (pieces d) =
        (es.map (pieces d)).map fun ps => .fixed "(" :: (ps ++ [.fixed ")"]) := by
      simp [pieces]
    have nested : SamePrints d ((e :: es).map .nested) ((e' :: es').map .nested) := by
      rw [SamePrints, wrapped, wrapped, h]
    refine congrArg some ?_
    rw [pieces, pieces, hjoin nested]

namespace View

variable {w : View} {d : Dialect}

/-- The mappings have conditions of the same text, depending on what their members are. -/
def SameMapping (d : Dialect) (w : View) : Place → Members → Members → Prop
  | .clause, ms, ms' => Alike (SameConjunction d) (w.members ms) (w.members ms')
  | .arms, ms, ms' => Alike (SamePrints d) (w.memberArms ms) (w.memberArms ms')
  | .operators, ms, ms' =>
    ∀ column, Alike (SameConjunction d) (w.entries column ms) (w.entries column ms')

variable {place : Place} {ms ms' : Members}

theorem SameMapping.among (h : w.SameMapping d place ms ms') (before after : Members) :
    w.SameMapping d place (before ++ ms ++ after) (before ++ ms' ++ after) := by
  have conjunction : ∀ es, SameConjunction d es es := fun _ => rfl
  have prints : ∀ es, SamePrints d es es := fun _ => rfl
  cases place with
  | clause =>
    simp only [SameMapping, members_append]
    exact .both .append (.both .append (.refl conjunction _) h) (.refl conjunction _)
  | arms =>
    simp only [SameMapping, memberArms_append]
    exact .both .append (.both .append (.refl prints _) h) (.refl prints _)
  | operators =>
    simp only [SameMapping, entries_append]
    exact fun column =>
      .both .append (.both .append (.refl conjunction _) (h column)) (.refl conjunction _)

theorem sameMapping_member {m m' : String × Json} (hplace : place ≠ .operators)
    (h : Alike (SameConjunction d) (w.ofMember m) (w.ofMember m')) :
    w.SameMapping d place [m] [m'] := by
  cases place with
  | clause =>
    rw [SameMapping, members_singleton, members_singleton]
    exact h
  | arms =>
    rw [SameMapping, memberArms_singleton, memberArms_singleton]
    exact h.map fun _ _ same => same.toList
  | operators => exact absurd rfl hplace

theorem sameMapping_entry {m m' : String × Json}
    (h : ∀ column, Alike (SamePrint d) (w.ofEntry column m) (w.ofEntry column m')) :
    w.SameMapping d .operators [m] [m'] := by
  intro column
  rw [entries_singleton, entries_singleton]
  exact (h column).map fun _ _ same => same.sameConjunction

/-- A group depends on its value taken together, or on the arms of its value for `or`. -/
theorem alike_group (hw : w.operators = .standard) {name : String} (hname : isGroup name = true)
    {value value' : Json} (hvalue : isBlankMember value = false)
    (hvalue' : isBlankMember value' = false)
    (hall : (name == "or") = false →
      Alike (SamePrint d) (w.groupValue value).all (w.groupValue value').all)
    (hany : (name == "or") = true →
      Alike (SamePrint d) (w.groupValue value).any (w.groupValue value').any) :
    Alike (SameConjunction d) (w.ofMember (name, value)) (w.ofMember (name, value')) := by
  simp only [isGroup, Bool.or_eq_true, beq_iff_eq] at hname
  unfold ofMember member
  rw [hvalue, hvalue', hw]
  obtain ((rfl | rfl) | rfl) | rfl := hname
  · exact (hall rfl).bind fun _ _ same => .ok same.sameConjunction
  · exact (hany rfl).bind fun _ _ same => .ok same.sameConjunction
  · exact ((hall rfl).bind fun _ _ same => .ok same.not).bind fun _ _ same =>
      .ok same.sameConjunction
  · exact ((hall rfl).bind fun _ _ same => .ok same.not).bind fun _ _ same =>
      .ok same.sameConjunction

/-- A group may stand among conditions, or among the operators on a key. -/
theorem sameMapping_group (hw : w.operators = .standard) {name : String}
    (hname : place.HasGroup name) {value value' : Json} (hvalue : isBlankMember value = false)
    (hvalue' : isBlankMember value' = false)
    (hall : (name == "or") = false →
      Alike (SamePrint d) (w.groupValue value).all (w.groupValue value').all)
    (hany : (name == "or") = true →
      Alike (SamePrint d) (w.groupValue value).any (w.groupValue value').any) :
    w.SameMapping d place [(name, value)] [(name, value')] := by
  cases place with
  | clause => exact sameMapping_member (by simp) (alike_group hw hname hvalue hvalue' hall hany)
  | arms => exact sameMapping_member (by simp) (alike_group hw hname hvalue hvalue' hall hany)
  | operators =>
    refine sameMapping_entry fun column => ?_
    unfold ofEntry
    rw [hw]
    obtain rfl | rfl := hname
    · exact hall rfl
    · exact hany rfl

/-- The members of `and` have the conditions of their group. -/
theorem alike_splice (hw : w.operators = .standard) (inner : Members) :
    Alike (SameConjunction d) (w.ofMember ("and", .obj inner)) (w.members inner) := by
  have here : w.ofMember ("and", .obj inner) = (w.members inner).map arm := by
    unfold ofMember member
    rw [hw]
    show (w.members inner).map conjunction >>= (fun e => pure e.toList) = _
    cases w.members inner <;> rfl
  rw [here]
  cases w.members inner with
  | ok es => exact .ok (congrArg _ (conjunction_toList _))
  | error e => exact .error e

/-- The arms of `or` are the same in a list. -/
theorem sameMapping_arms (hw : w.operators = .standard) (place : Place) (inner : Members) :
    w.SameMapping d place [("or", .obj inner)] [("or", .arr (inner.map fun m => .obj [m]))] := by
  have hname : place.HasGroup "or" := by
    cases place with
    | operators => exact .inr rfl
    | clause | arms => rfl
  have arms : (w.groupValue (.arr (inner.map fun m => .obj [m]))).any =
      (w.groupValue (.obj inner)).any := by
    show (w.elementArms (inner.map fun m => .obj [m])).map _ = (w.memberArms inner).map _
    rw [elementArms_singletons]
  have same : ∀ e, SamePrint d e e := fun _ => rfl
  cases inner with
  | nil =>
    -- Without arms the list is blank, so that among conditions it does not count as a group.
    cases place with
    | operators =>
      refine sameMapping_entry fun column => ?_
      unfold ofEntry
      rw [hw]
      exact .ok rfl
    | clause | arms =>
      refine sameMapping_member (by simp) ?_
      unfold ofMember member
      rw [hw]
      exact .ok rfl
  | cons m inner =>
    refine sameMapping_group hw hname rfl rfl (fun hor => by cases hor) fun _ => ?_
    rw [arms]
    exact .refl same _

/-- Both spellings have conditions of the same text. -/
theorem sameMapping_respelled (hw : w.operators = .standard) (h : Respelled place ms ms') :
    w.SameMapping d place ms ms' := by
  induction h with
  | splice inner =>
    rw [SameMapping, members_singleton]
    exact alike_splice hw inner
  | @arms place inner => exact sameMapping_arms hw place inner
  | among before after _ ih => exact ih.among before after
  | @mapping place name ms ms' hname _ ih =>
    refine sameMapping_group hw hname rfl rfl (fun hor => ?_) fun hor => ?_
    · rw [Place.below, hor] at ih
      exact Alike.map ih fun _ _ same => same
    · rw [Place.below, hor] at ih
      exact Alike.map ih fun _ _ same => GroupValue.samePrint_group (·.or) same
  | @element place name ms ms' hname before after _ ih =>
    have blank (ms : Members) : isBlankMember (.arr (before ++ .obj ms :: after)) = false := by
      cases before <;> rfl
    have same : ∀ es, SamePrints d es es := fun _ => rfl
    have here : Alike (SamePrints d) ((w.members ms).map arm) ((w.members ms').map arm) :=
      Alike.map ih fun _ _ same => same.toList
    have arms : Alike (SamePrints d) (w.elementArms (before ++ .obj ms :: after))
        (w.elementArms (before ++ .obj ms' :: after)) := by
      simp only [elementArms_append, elementArms_cons, element]
      exact .both .append (.refl same _) (.both .append here (.refl same _))
    refine sameMapping_group hw hname (blank ms) (blank ms') (fun _ => ?_) fun _ => ?_
    · exact arms.map fun _ _ same => GroupValue.samePrint_group (·.and) same
    · exact arms.map fun _ _ same => GroupValue.samePrint_group (·.or) same
  | @key place name ms ms' hplace hname hexpr _ ih =>
    refine sameMapping_member hplace ?_
    have blank (ms : Members) :
        (isBlankMember (.obj ms) || name == joinDirective) = (name == joinDirective) := rfl
    unfold ofMember member
    simp only [blank, hname, if_neg hexpr, Bool.false_eq_true, if_false]
    split_ifs
    · exact .ok rfl
    · refine Alike.bind_same fun column? _ => ?_
      cases column? with
      | none => exact .ok rfl
      | some column => exact ih column
  | @negation name ms ms' hname _ ih =>
    refine sameMapping_entry fun column => ?_
    have inner : Alike (SamePrint d) ((w.entries column ms).map conjunction)
        ((w.entries column ms').map conjunction) := (ih column).map fun _ _ same => same
    unfold ofEntry
    rw [hw]
    obtain rfl | rfl := hname
    · exact inner.bind fun _ _ same => .ok same.not
    · exact inner.bind fun _ _ same => .ok same.not

/-- Both spellings compile to an expression of the same text, or fail with the same error. -/
theorem compile_respelled (hw : w.operators = .standard) (h : Respelled .clause ms ms') :
    Alike (SamePrint d) (w.compile (some ms)) (w.compile (some ms')) :=
  Alike.map (sameMapping_respelled hw h) fun _ _ same => same

end View

end FilterSql
