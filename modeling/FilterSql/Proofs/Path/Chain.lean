import FilterSql.Proofs.Path.Walk
import FilterSql.Proofs.Text.Pieces

/-!
# Chains of keys

The segments of a key are cut at its points and can be read back from their texts
(`Segment.Legible`).  The relations that a key crosses lead from entity to entity
(`Registry.reached?`), so the chain of a key consists of legible segments that name declared
relations.
-/

namespace FilterSql

/-! ## Segments -/

namespace Segment

/-- The text of a segment is what it was read from. -/
theorem toList_text_of_ofChars? {cs : List Char} {s : Segment} (h : ofChars? cs = some s) :
    s.text.toList = cs := by
  unfold ofChars? at h
  split at h
  · split_ifs at h
    obtain rfl := Option.some.inj h
    exact String.toList_ofList
  · rename_i c rest hdrop
    dsimp only at h
    split_ifs at h with hbad
    obtain rfl := Option.some.inj h
    simp only [Bool.or_eq_true, not_or, bne_iff_ne, ne_eq, not_not] at hbad
    -- The text is the name, the parenthesis at which it was cut, and the tag before the last one.
    have close : rest.dropLast ++ [')'] = rest := List.dropLast_append_getLast? ')' hbad.1.2
    have opening : c = '(' := by
      have head := List.head?_dropWhile_not (· != '(') cs
      rw [hdrop] at head
      simpa using head
    have parts : cs.takeWhile (· != '(') ++ c :: rest = cs := by
      rw [← hdrop, List.takeWhile_append_dropWhile]
    rw [opening, ← close] at parts
    simpa [text, toString] using parts

/-- The segment can be read back from its text, which has no points. -/
structure Legible (s : Segment) : Prop where
  parsed : ofChars? s.text.toList = some s
  dotless : '.' ∉ s.text.toList

theorem ne_nil_of_ofKey {key : String} {segments : List Segment}
    (h : Segment.ofKey key = .ok segments) : segments ≠ [] := by
  unfold Segment.ofKey at h
  split at h
  · rename_i parsed hparsed
    obtain rfl := Except.ok.inj h
    obtain ⟨piece, rest, hpieces⟩ :=
      List.exists_cons_of_ne_nil (List.splitOn_ne_nil '.' key.toList)
    rw [hpieces, List.mapM_cons] at hparsed
    rintro rfl
    simp [Option.bind_eq_some_iff] at hparsed
  · cases h

/-- The segments of a key are legible. -/
theorem legible_of_ofKey {key : String} {segments : List Segment}
    (h : Segment.ofKey key = .ok segments) {s : Segment} (hs : s ∈ segments) : s.Legible := by
  unfold Segment.ofKey at h
  split at h
  · rename_i parsed hparsed
    obtain rfl := Except.ok.inj h
    obtain ⟨piece, hpiece, hof⟩ := exists_of_mem_mapM hparsed hs
    have text := toList_text_of_ofChars? hof
    refine ⟨text ▸ hof, fun hdot => ?_⟩
    rw [text] at hdot
    simpa using Text.eq_false_of_mem_splitOnP hpiece hdot
  · cases h

end Segment

/-! ## Chains -/

/-- What a walk stands for: what is left of the key has no tags.  If nothing is left, it is the end of
the chain; without a chain it is a property of the root; otherwise it is a property of the entity
at the end, which has to be declared unless that entity is chosen by row. -/
theorem Walk.chain?_eq_ok_iff {root : Entity} {key : String} {w : Walk} {c : Chain} :
    w.chain? root key = .ok c ↔ (∀ s ∈ w.rest, s.tag = none) ∧
      ((w.rest = [] ∧ c = .relations w.chain) ∨
        ∃ first rest, w.rest = first :: rest ∧
          ((w.chain = [] ∧ root.hasProperty first.name = true ∧ c = .plain) ∨
            (w.chain ≠ [] ∧ (w.polymorphic = true ∨ w.last.hasProperty first.name = true) ∧
              c = .property w.chain first.name (Segment.joinNames (first :: rest))))) := by
  obtain ⟨chain, rest, last, polymorphic⟩ := w
  have untagged : rest.find? (fun s => s.tag.isSome) = none ↔ ∀ s ∈ rest, s.tag = none := by
    simp [List.find?_eq_none]
  unfold chain?
  dsimp only
  cases hfind : rest.find? fun s => s.tag.isSome with
  | some s =>
    have tagged : ¬ ∀ s ∈ rest, s.tag = none := by
      rw [← untagged, hfind]
      simp
    simp [tagged]
  | none =>
    rw [eq_true (untagged.1 hfind), true_and]
    cases rest with
    | nil => simp [@eq_comm _ _ c]
    | cons first rest =>
      cases chain with
      | nil => cases hproperty : root.hasProperty first.name <;> simp [hproperty, @eq_comm _ _ c]
      | cons t chain =>
        cases polymorphic <;> cases hproperty : last.hasProperty first.name <;>
          simp [hproperty, @eq_comm _ _ c]

/-- What goes on to a property has relations before it. -/
theorem Walk.ne_nil_of_chain? {root : Entity} {key name rest : String} {w : Walk}
    {chain : List Segment} (h : w.chain? root key = .ok (.property chain name rest)) :
    w.chain ≠ [] ∧ w.rest ≠ [] := by
  obtain ⟨-, ⟨-, hc⟩ | ⟨first, more, hrest, ⟨-, -, hc⟩ | ⟨hne, -, -⟩⟩⟩ := chain?_eq_ok_iff.1 h
  · cases hc
  · cases hc
  · exact ⟨hne, by simp [hrest]⟩

/-- What ends with a relation has nothing after it. -/
theorem Walk.rest_eq_nil_of_chain? {root : Entity} {key : String} {w : Walk} {chain : List Segment}
    (h : w.chain? root key = .ok (.relations chain)) : w.rest = [] := by
  obtain ⟨-, ⟨hrest, -⟩ | ⟨first, more, -, ⟨-, -, hc⟩ | ⟨-, -, hc⟩⟩⟩ := chain?_eq_ok_iff.1 h
  · exact hrest
  · cases hc
  · cases hc

namespace Chain

/-- The relations that a key crosses. -/
def segments : Chain → List Segment
  | plain => []
  | relations chain => chain
  | property chain _ _ => chain

/-- The key after the chain, if it goes on to a property. -/
def rest? : Chain → Option String
  | property _ _ key => some key
  | _ => none

theorem segments_of_walk {root : Entity} {key : String} {w : Walk} {c : Chain}
    (h : w.chain? root key = .ok c) : c = .plain ∨ c.segments = w.chain := by
  obtain ⟨-, ⟨-, rfl⟩ | ⟨first, more, -, ⟨-, -, rfl⟩ | ⟨-, -, rfl⟩⟩⟩ := Walk.chain?_eq_ok_iff.1 h
  · exact .inr rfl
  · exact .inl rfl
  · exact .inr rfl

/-- The chain of a key consists of legible segments, which lead from entity to entity. -/
theorem ofKey_reached {g : Registry} {root : Entity} {key : String} {c : Chain}
    (h : Chain.ofKey g root key = .ok c) :
    (∀ s ∈ c.segments, s.Legible) ∧ ∃ last, g.reached? root c.segments = some last := by
  obtain ⟨segments, hsegments, h⟩ := bind_eq_ok.1 h
  obtain ⟨w, hw, h⟩ := bind_eq_ok.1 h
  obtain ⟨reached, sub⟩ := walk_reached hw
  obtain rfl | hc := segments_of_walk h
  · exact ⟨by simp [Chain.segments], root, rfl⟩
  · rw [hc]
    exact ⟨fun s hs => Segment.legible_of_ofKey hsegments (sub.subset hs), w.last, reached⟩

/-- A key that is not plain crosses the relations that its segments walk, of which there is one. -/
theorem walk_of_ofKey {g : Registry} {root : Entity} {key : String} {c : Chain}
    (h : Chain.ofKey g root key = .ok c) (hplain : c ≠ .plain) : ∃ segments w,
      Segment.ofKey key = .ok segments ∧ walk g key root false none segments = .ok w ∧
      w.chain? root key = .ok c ∧ w.chain = c.segments ∧ c.segments ≠ [] := by
  obtain ⟨segments, hsegments, h⟩ := bind_eq_ok.1 h
  obtain ⟨w, hw, h⟩ := bind_eq_ok.1 h
  obtain hc | hc := segments_of_walk h
  · exact absurd hc hplain
  refine ⟨segments, w, hsegments, hw, h, hc.symm, hc ▸ ?_⟩
  cases c with
  | plain => exact absurd rfl hplain
  | relations chain =>
    have whole := walk_append hw
    rw [Walk.rest_eq_nil_of_chain? h, List.append_nil] at whole
    exact whole ▸ Segment.ne_nil_of_ofKey hsegments
  | property chain name rest => exact (Walk.ne_nil_of_chain? h).1

end Chain

end FilterSql
