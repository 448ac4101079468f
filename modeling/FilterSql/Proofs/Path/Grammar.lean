import FilterSql.Proofs.Path.Resolution

/-!
# The grammar of keys

The segments of a key are what its points separate.  Names and tags are not empty and have no
parentheses (`Segment.Permitted`), but a name before a tag need only be without opening ones
(`Segment.closing_parenthesis_read`).  A key is read just in case all that its points separate are
such segments, and as those segments (`Segment.ofKey_permitted`).  So the texts of the segments of a
key make the key again, and segments without points and parentheses are read back from their texts
(`Segment.texts_read_back`).
-/

namespace FilterSql

/-- The text is not empty, and none of its characters is a mark. -/
def Text.Unmarked (marks : List Char) (s : String) : Prop := s ≠ "" ∧ ∀ c ∈ s.toList, c ∉ marks

instance (marks : List Char) (s : String) : Decidable (Text.Unmarked marks s) :=
  have : Decidable (∀ c ∈ s.toList, c ∉ marks) := List.decidableBAll _ _
  inferInstanceAs (Decidable (_ ∧ _))

theorem Text.Unmarked.mono {marks marks' : List Char} {s : String} (h : Unmarked marks' s)
    (sub : marks ⊆ marks') : Unmarked marks s :=
  ⟨h.1, fun c hc hmark => h.2 c hc (sub hmark)⟩

namespace Segment

/-- Name and tag are not empty.  A tag has no parentheses, a name without a tag has none either, and
a name before a tag has none of the marks. -/
def Permitted (marks : List Char) (s : Segment) : Prop :=
  match s.tag with
  | none => Text.Unmarked ['(', ')'] s.name
  | some tag => Text.Unmarked marks s.name ∧ Text.Unmarked ['(', ')'] tag

theorem Permitted.mono {marks marks' : List Char} {s : Segment} (h : s.Permitted marks')
    (sub : marks ⊆ marks') : s.Permitted marks := by
  obtain ⟨name, _ | tag⟩ := s
  · exact h
  · exact h.imp_left fun hname => hname.mono sub

/-! ## Segments -/

/-- What is read from characters is permitted. -/
theorem permitted_of_ofChars? {cs : List Char} {s : Segment} (h : ofChars? cs = some s) :
    s.Permitted ['('] := by
  unfold ofChars? at h
  split at h
  · rename_i hdrop
    split_ifs at h with hbad
    obtain rfl := Option.some.inj h
    rw [List.dropWhile_eq_nil_iff] at hdrop
    simp only [Bool.or_eq_true, List.isEmpty_iff, List.contains_iff_mem, not_or] at hbad
    refine ⟨by simpa using hbad.1, fun c hc hmark => ?_⟩
    rw [String.toList_ofList] at hc
    obtain rfl | rfl : c = '(' ∨ c = ')' := by simpa using hmark
    · simpa using hdrop '(' hc
    · exact hbad.2 hc
  · dsimp only at h
    split_ifs at h with hbad
    obtain rfl := Option.some.inj h
    simp only [Bool.or_eq_true, List.isEmpty_iff, List.any_eq_true, beq_iff_eq, not_or, not_exists,
      not_and] at hbad
    refine ⟨⟨by simpa using hbad.1.1.1, fun c hc => ?_⟩, by simpa using hbad.1.1.2, fun c hc => ?_⟩
    · rw [String.toList_ofList] at hc
      simpa using List.mem_takeWhile_imp hc
    · rw [String.toList_ofList] at hc
      simpa using hbad.2 c hc

/-- A permitted segment is read from its text. -/
theorem ofChars?_of_permitted {s : Segment} (h : s.Permitted ['(']) :
    ofChars? s.text.toList = some s := by
  obtain ⟨name, _ | tag⟩ := s
  · obtain ⟨nonempty, unmarked⟩ : Text.Unmarked ['(', ')'] name := h
    have opening : name.toList.dropWhile (· != '(') = [] := by
      refine List.dropWhile_eq_nil_iff.2 fun c hc => bne_iff_ne.2 ?_
      rintro rfl
      exact unmarked '(' hc (by simp)
    have closing : ')' ∉ name.toList := fun hc => unmarked ')' hc (by simp)
    simp [ofChars?, text, opening, closing, nonempty]
  · obtain ⟨⟨nonempty, unmarked⟩, tagNonempty, tagUnmarked⟩ :
      Text.Unmarked ['('] name ∧ Text.Unmarked ['(', ')'] tag := h
    have chars : (text ⟨name, some tag⟩).toList = name.toList ++ '(' :: (tag.toList ++ [')']) := by
      simp [text, toString]
    -- The name ends at the first opening parenthesis, since it has none.
    have before : ∀ c ∈ name.toList, (c != '(') = true := fun c hc => by
      simpa using unmarked c hc
    have drop : (text ⟨name, some tag⟩).toList.dropWhile (· != '(') =
        '(' :: (tag.toList ++ [')']) := by
      rw [chars, List.dropWhile_append_of_pos before]
      rfl
    have take : (text ⟨name, some tag⟩).toList.takeWhile (· != '(') = name.toList := by
      rw [chars, List.takeWhile_append_of_pos before, List.takeWhile_cons_of_neg (by simp),
        List.append_nil]
    have inside : tag.toList.any (fun c => c == '(' || c == ')') = false := by
      rw [List.any_eq_false]
      intro c hc
      simpa using tagUnmarked c hc
    simp [ofChars?, drop, take, inside, nonempty, tagNonempty]

/-! ## Keys -/

theorem mapM_ofChars?_eq_some_iff {pieces : List (List Char)} {segments : List Segment} :
    pieces.mapM ofChars? = some segments ↔
      (segments.map text).map String.toList = pieces ∧ ∀ s ∈ segments, s.Permitted ['('] := by
  constructor
  · intro h
    refine ⟨toList_texts_of_mapM h, fun s hs => ?_⟩
    obtain ⟨piece, -, hpiece⟩ := exists_of_mem_mapM h hs
    exact permitted_of_ofChars? hpiece
  · rintro ⟨rfl, permitted⟩
    rw [mapM_eq_some_iff, List.map_map, List.forall₂_map_left_iff, List.forall₂_same]
    exact fun s hs => ofChars?_of_permitted (permitted s hs)

/-- A key is read as the permitted segments whose texts its points separate. -/
theorem ofKey_eq_ok_iff {key : String} {segments : List Segment} :
    ofKey key = .ok segments ↔
      segments.map text = Text.split (· == '.') key ∧ ∀ s ∈ segments, s.Permitted ['('] := by
  have injective : Function.Injective (List.map String.toList) :=
    List.map_injective_iff.2 fun _ _ => String.toList_inj.1
  have texts : segments.map text = Text.split (· == '.') key ↔
      (segments.map text).map String.toList = key.toList.splitOn '.' := by
    rw [← injective.eq_iff, Text.split, List.map_map (g := String.toList), List.splitOn_eq_splitOnP]
    simp [Function.comp_def]
  rw [texts, ← mapM_ofChars?_eq_some_iff, ofKey]
  split <;> simp_all

/-- Segments can be found one by one. -/
theorem exists_ofKey_eq_ok_iff {key : String} : (∃ segments, ofKey key = .ok segments) ↔
    ∀ piece ∈ Text.split (· == '.') key, ∃ s : Segment, s.text = piece ∧ s.Permitted ['('] := by
  constructor
  · rintro ⟨segments, read⟩ piece hpiece
    obtain ⟨texts, permitted⟩ := ofKey_eq_ok_iff.1 read
    rw [← texts] at hpiece
    obtain ⟨s, hs, rfl⟩ := List.mem_map.1 hpiece
    exact ⟨s, rfl, permitted s hs⟩
  · intro h
    choose segment htext permitted using fun piece : {p // p ∈ Text.split (· == '.') key} =>
      h piece.1 piece.2
    refine ⟨(Text.split (· == '.') key).attach.map segment, ofKey_eq_ok_iff.2 ⟨?_, ?_⟩⟩
    · rw [List.map_map]
      exact (List.map_congr_left fun piece _ => htext piece).trans (List.attach_map_subtype_val _)
    · intro s hs
      obtain ⟨piece, -, rfl⟩ := List.mem_map.1 hs
      exact permitted piece

/-- A key is read just in case each text that its points separate is that of a permitted segment, and
it is read as these segments.  Any other key is malformed. -/
theorem ofKey_permitted (key : String) :
    ((∃ segments, ofKey key = .ok segments) ↔
      ∀ piece ∈ Text.split (· == '.') key, ∃ s : Segment, s.text = piece ∧ s.Permitted ['(']) ∧
    (∀ segments, ofKey key = .ok segments ↔
      segments.map text = Text.split (· == '.') key ∧ ∀ s ∈ segments, s.Permitted ['(']) ∧
    ((∃ segments, ofKey key = .ok segments) ∨ ofKey key = .error (.malformedKey key)) := by
  refine ⟨exists_ofKey_eq_ok_iff, fun segments => ofKey_eq_ok_iff, ?_⟩
  unfold ofKey
  split
  · exact .inl ⟨_, rfl⟩
  · exact .inr rfl

/-- The key `a)(b)` is read, although the name before its tag has a parenthesis. -/
theorem closing_parenthesis_read : ofKey "a)(b)" = .ok [⟨"a)", some "b"⟩] ∧
    Text.split (· == '.') "a)(b)" = ["a)(b)"] ∧
    ∀ s : Segment, s.text = "a)(b)" → ¬ s.Permitted ['(', ')'] := by
  refine ⟨by decide +kernel, by decide +kernel, fun s htext permitted => ?_⟩
  have chars : ofChars? "a)(b)".toList = some ⟨"a)", some "b"⟩ := by decide +kernel
  have read := ofChars?_of_permitted (permitted.mono (by simp))
  rw [htext, chars] at read
  obtain rfl := Option.some.inj read
  exact permitted.1.2 ')' (by decide +kernel) (by simp)

/-! ## Texts of segments -/

/-- Name and tag are not empty and have no points and no parentheses. -/
def Clean (s : Segment) : Prop := ∀ part ∈ s.name :: s.tag.toList, Text.Unmarked ['.', '(', ')'] part

theorem Clean.permitted {s : Segment} (h : s.Clean) : s.Permitted ['('] := by
  obtain ⟨name, _ | tag⟩ := s
  · exact (h name (by simp)).mono (by simp)
  · exact ⟨(h name (by simp)).mono (by simp), (h tag (by simp)).mono (by simp)⟩

theorem Clean.dotless {s : Segment} (h : s.Clean) : '.' ∉ s.text.toList := by
  have part : ∀ p ∈ s.name :: s.tag.toList, '.' ∉ p.toList := fun p hp hdot =>
    (h p hp).2 '.' hdot (by simp)
  obtain ⟨name, _ | tag⟩ := s
  · exact part name (by simp)
  · have hname : '.' ∉ name.toList := part name (by simp)
    have htag : '.' ∉ tag.toList := part tag (by simp)
    simp [text, toString, hname, htag]

/-- Texts of segments without points are what the points between them separate. -/
theorem split_joinTexts {segments : List Segment} (hne : segments ≠ [])
    (h : ∀ s ∈ segments, '.' ∉ s.text.toList) :
    Text.split (· == '.') (joinTexts segments) = segments.map text := by
  have cut : (joinTexts segments).toList.splitOn '.' =
      (segments.map text).map String.toList := by
    rw [joinTexts, String.toList_intercalate]
    refine List.splitOn_intercalate '.' (fun p hp => ?_) (by simpa using hne)
    obtain ⟨t, ht, rfl⟩ := List.mem_map.1 hp
    obtain ⟨s, hs, rfl⟩ := List.mem_map.1 ht
    exact h s hs
  rw [Text.split, ← List.splitOn_eq_splitOnP, cut, List.map_map]
  simp [Function.comp_def]

/-- The texts of the segments of a key make the key, so no other key has the same segments.  Segments
without points and parentheses are those of the key that their texts make. -/
theorem texts_read_back (key : String) (segments : List Segment) :
    (ofKey key = .ok segments →
      joinTexts segments = key ∧ ∀ key', ofKey key' = .ok segments → key' = key) ∧
    (segments ≠ [] → (∀ s ∈ segments, s.Clean) → ofKey (joinTexts segments) = .ok segments) := by
  constructor
  · intro h
    have texts := joinTexts_of_ofKey h
    exact ⟨texts, fun key' h' => (joinTexts_of_ofKey h').symm.trans texts⟩
  · intro hne clean
    exact ofKey_eq_ok_iff.2 ⟨(split_joinTexts hne fun s hs => (clean s hs).dotless).symm,
      fun s hs => (clean s hs).permitted⟩

theorem texts_read_back_crates : ∃ key segments,
    key = "箱(本).größe.text" ∧
    segments = [⟨"箱", some "本"⟩, ⟨"größe", none⟩, ⟨"text", none⟩] ∧
    ofKey key = .ok segments ∧ segments ≠ [] ∧ (∀ s ∈ segments, s.Clean) ∧
    joinTexts segments = key ∧ (∀ key', ofKey key' = .ok segments → key' = key) ∧
    ofKey (joinTexts segments) = .ok segments := by
  have read : ofKey "箱(本).größe.text" =
      .ok [⟨"箱", some "本"⟩, ⟨"größe", none⟩, ⟨"text", none⟩] := by
    decide +kernel
  have clean : ∀ s ∈ [(⟨"箱", some "本"⟩ : Segment), ⟨"größe", none⟩, ⟨"text", none⟩], s.Clean := by
    unfold Clean
    decide +kernel
  obtain ⟨printed, parsed⟩ := texts_read_back "箱(本).größe.text"
    [⟨"箱", some "本"⟩, ⟨"größe", none⟩, ⟨"text", none⟩]
  exact ⟨_, _, rfl, rfl, read, by simp, clean, (printed read).1, (printed read).2,
    parsed (by simp) clean⟩

end Segment

end FilterSql
