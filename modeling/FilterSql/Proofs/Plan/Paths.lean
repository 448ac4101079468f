import FilterSql.Proofs.Plan.Steps
import Mathlib.Data.List.Nodup

/-!
# Paths of planned joins

A `Crossing` is a relation that is crossed after others, from the root of a filter.  The joins for
it have their paths, which join the texts of the segments by points.  As long as no relation is
called `-`, the paths of different crossings are different (`Crossing.paths_disjoint`): they have
different words, and a path through a table in between has the word `-`, which no other has.
-/

namespace FilterSql

/-- Words with a point before each. -/
def dotted (words : List (List Char)) : List Char := words.flatMap ('.' :: ·)

theorem takeWhile_dotted {w : List Char} (hw : '.' ∉ w) (words : List (List Char)) :
    (w ++ dotted words).takeWhile (· != '.') = w := by
  have plain : ∀ c ∈ w, (c != '.') = true := fun c hc => bne_iff_ne.2 fun h => hw (h ▸ hc)
  rw [List.takeWhile_append_of_pos plain]
  cases words with
  | nil => exact List.append_nil w
  | cons v words => exact List.append_nil w

/-- Words without points can be told from the text that they make. -/
theorem dotted_injective {ws vs : List (List Char)} (hw : ∀ w ∈ ws, '.' ∉ w)
    (hv : ∀ v ∈ vs, '.' ∉ v) (h : dotted ws = dotted vs) : ws = vs := by
  induction ws generalizing vs with
  | nil =>
    cases vs with
    | nil => rfl
    | cons v vs => cases h
  | cons w ws ih =>
    cases vs with
    | nil => cases h
    | cons v vs =>
      -- Up to the next point both texts are their first words.
      have text : w ++ dotted ws = v ++ dotted vs := (List.cons.inj h).2
      have first : w = v := by
        rw [← takeWhile_dotted (hw w List.mem_cons_self) ws, text,
          takeWhile_dotted (hv v List.mem_cons_self) vs]
      subst first
      have rest : ws = vs := ih (fun u hu => hw u (List.mem_cons_of_mem _ hu))
        (fun u hu => hv u (List.mem_cons_of_mem _ hu)) (List.append_cancel_left text)
      rw [rest]

/-- The path of a chain of relations: the name of the root, and the segments with a point before
each. -/
def chainPath (root : Entity) (chain : List Segment) : String :=
  chain.foldl (fun path s => s!"{path}.{s.text}") root.name

theorem chainPath_append_singleton (root : Entity) (chain : List Segment) (s : Segment) :
    chainPath root (chain ++ [s]) = s!"{chainPath root chain}.{s.text}" := by
  rw [chainPath, List.foldl_append]
  rfl

/-- The texts of segments. -/
def words (chain : List Segment) : List (List Char) := chain.map fun s => s.text.toList

theorem toList_chainPath (root : Entity) (chain : List Segment) :
    (chainPath root chain).toList = root.name.toList ++ dotted (words chain) := by
  unfold chainPath
  generalize root.name = path
  induction chain generalizing path with
  | nil => simp [words, dotted]
  | cons s chain ih =>
    rw [List.foldl_cons, ih]
    simp [words, dotted, toString]

/-- Legible segments can be told from their texts. -/
theorem words_injective {xs ys : List Segment} (hx : ∀ s ∈ xs, s.Legible)
    (hy : ∀ s ∈ ys, s.Legible) (h : words xs = words ys) : xs = ys := by
  have read {zs : List Segment} (hz : ∀ s ∈ zs, s.Legible) :
      (words zs).map Segment.ofChars? = zs.map some := by
    rw [words, List.map_map]
    exact List.map_congr_left fun s hs => (hz s hs).parsed
  have options : xs.map some = ys.map some := by rw [← read hx, ← read hy, h]
  exact List.map_injective_iff.2 (fun _ _ => Option.some.inj) options

/-- A relation that is crossed after others, from the root of a filter. -/
structure Crossing where
  before : List Segment
  last : Segment
  deriving DecidableEq, Repr

namespace Crossing

/-- All relations up to the crossing. -/
def chain (x : Crossing) : List Segment := x.before ++ [x.last]

/-- The path of the join that arrives. -/
def path (root : Entity) (x : Crossing) : String := chainPath root x.chain

theorem path_eq (root : Entity) (x : Crossing) :
    x.path root = s!"{chainPath root x.before}.{x.last.text}" :=
  chainPath_append_singleton root x.before x.last

/-- The path of the join of the table in between. -/
def halfPath (root : Entity) (x : Crossing) : String :=
  s!"{chainPath root x.before}.-.{x.last.text}"

/-- The relation that is crossed. -/
def relation? (g : Registry) (root : Entity) (x : Crossing) : Option Relation :=
  (g.reached? root x.before).bind fun owner => owner.relation? x.last.name

/-- The paths of the joins that the relation needs, in their order. -/
def paths (g : Registry) (root : Entity) (x : Crossing) : List String :=
  match x.relation? g root with
  | some (.through _) => [x.halfPath root, x.path root]
  | _ => [x.path root]

/-- Its segments can be read back from the path, and none is the mark of a table in between. -/
structure Legible (x : Crossing) : Prop where
  segments : ∀ s ∈ x.chain, s.Legible
  dashless : ['-'] ∉ words x.chain

variable {g : Registry} {root : Entity} {x y : Crossing}

theorem eq_of_chain_eq (h : x.chain = y.chain) : x = y := by
  obtain ⟨hbefore, hlast⟩ := List.append_inj' h rfl
  cases x
  cases y
  exact Crossing.mk.injEq .. ▸ ⟨hbefore, (List.singleton_inj).1 hlast⟩

theorem path_mem_paths (g : Registry) (root : Entity) (x : Crossing) :
    x.path root ∈ x.paths g root := by
  unfold paths
  split <;> simp

theorem mem_paths {path : String} (h : path ∈ x.paths g root) :
    path = x.path root ∨ path = x.halfPath root := by
  unfold paths at h
  split at h
  · simpa [or_comm] using h
  · exact .inl (by simpa using h)

theorem dotless_words {chain : List Segment} (h : ∀ s ∈ chain, s.Legible) :
    ∀ w ∈ words chain, '.' ∉ w := by
  intro w hw
  obtain ⟨s, hs, rfl⟩ := List.mem_map.1 hw
  exact (h s hs).dotless

/-- The words of the path through the table in between. -/
def halfWords (x : Crossing) : List (List Char) :=
  words x.before ++ [['-'], x.last.text.toList]

theorem toList_halfPath (root : Entity) (x : Crossing) :
    (x.halfPath root).toList = root.name.toList ++ dotted x.halfWords := by
  simp [halfPath, toString, toList_chainPath, halfWords, dotted]

theorem dotless_halfWords (hx : ∀ s ∈ x.chain, s.Legible) : ∀ w ∈ x.halfWords, '.' ∉ w := by
  intro w hw
  rw [halfWords, List.mem_append, List.mem_cons, List.mem_singleton] at hw
  obtain hw | rfl | rfl := hw
  · exact dotless_words (fun s hs => hx s (List.mem_append_left _ hs)) w hw
  · decide
  · exact (hx x.last (List.mem_append_right _ (List.mem_singleton.2 rfl))).dotless

theorem path_injective (hx : ∀ s ∈ x.chain, s.Legible) (hy : ∀ s ∈ y.chain, s.Legible)
    (h : x.path root = y.path root) : x = y := by
  have text : (x.path root).toList = (y.path root).toList := congrArg String.toList h
  rw [path, path, toList_chainPath, toList_chainPath] at text
  have same := dotted_injective (dotless_words hx) (dotless_words hy)
    (List.append_cancel_left text)
  exact eq_of_chain_eq (words_injective hx hy same)

theorem halfPath_injective (hx : x.Legible) (hy : y.Legible)
    (h : x.halfPath root = y.halfPath root) : x = y := by
  have text : (x.halfPath root).toList = (y.halfPath root).toList := congrArg String.toList h
  rw [toList_halfPath, toList_halfPath] at text
  have same := dotted_injective (dotless_halfWords hx.segments) (dotless_halfWords hy.segments)
    (List.append_cancel_left text)
  obtain ⟨hbefore, hlast⟩ := List.append_inj' same rfl
  have last : words [x.last] = words [y.last] := (List.cons.inj hlast).2
  have both : words x.chain = words y.chain := by
    rw [chain, chain, words, words, List.map_append, List.map_append]
    exact congrArg₂ _ hbefore last
  exact eq_of_chain_eq (words_injective hx.segments hy.segments both)

/-- A path is no path through a table in between, unless the mark of such a table is the name of a
relation on the way. -/
theorem path_ne_halfPath (hx : ∀ s ∈ x.chain, s.Legible) (hy : ∀ s ∈ y.chain, s.Legible)
    (hdash : ['-'] ∉ words x.before) : x.path root ≠ y.halfPath root := by
  intro h
  have text : (x.path root).toList = (y.halfPath root).toList := congrArg String.toList h
  rw [path, toList_chainPath, toList_halfPath] at text
  have same := dotted_injective (dotless_words hx) (dotless_halfWords hy)
    (List.append_cancel_left text)
  have split : words x.before ++ [x.last.text.toList] =
      (words y.before ++ [['-']]) ++ [y.last.text.toList] := by
    simpa [chain, words, halfWords] using same
  rw [(List.append_inj' split rfl).1] at hdash
  exact hdash (List.mem_append_right _ (List.mem_singleton.2 rfl))

theorem Legible.path_ne_halfPath (hx : x.Legible) (hy : y.Legible) :
    x.path root ≠ y.halfPath root :=
  Crossing.path_ne_halfPath hx.segments hy.segments fun h => hx.dashless <| by
    rw [chain, words, List.map_append]
    exact List.mem_append_left _ h

/-- Different crossings have different paths. -/
theorem paths_disjoint (hx : x.Legible) (hy : y.Legible) {p : String} (hpx : p ∈ x.paths g root)
    (hpy : p ∈ y.paths g root) : x = y := by
  obtain rfl | rfl := mem_paths hpx
  · obtain h | h := mem_paths hpy
    · exact path_injective hx.segments hy.segments h
    · exact absurd h (hx.path_ne_halfPath hy)
  · obtain h | h := mem_paths hpy
    · exact absurd h.symm (hy.path_ne_halfPath hx)
    · exact halfPath_injective hx hy h

theorem nodup_paths (g : Registry) (root : Entity) (hx : x.Legible) : (x.paths g root).Nodup := by
  unfold paths
  split
  · simpa using (hx.path_ne_halfPath hx).symm
  · exact List.nodup_singleton _

/-- All paths of different crossings are different. -/
theorem nodup_flatMap_paths {xs : List Crossing} (hl : ∀ x ∈ xs, x.Legible) (hxs : xs.Nodup) :
    (xs.flatMap fun x => x.paths g root).Nodup := by
  refine List.nodup_flatMap.2 ⟨fun x hx => nodup_paths g root (hl x hx), ?_⟩
  refine hxs.imp_of_mem fun {x y} hx hy hne p hpx hpy => ?_
  exact hne (paths_disjoint (hl x hx) (hl y hy) hpx hpy)

end Crossing

end FilterSql
