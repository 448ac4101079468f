import FilterSql.Proofs.Path.Chain

/-!
# What keys stand for

The segments of a key stand for a property of the root, for a chain of relations, or for a property
at the end of such a chain (`Chain.Resolves`).  The chain is as long as it can be
(`Chain.Resolves.prefix_of_reached?`), and with the rest of the key it spells the whole key
(`Chain.Resolves.spelled?`).  `Chain.ofKey` resolves just the keys whose segments stand for
something, and to what they stand for (`ofKey_resolves`).
-/

namespace FilterSql

/-! ## Texts of keys -/

namespace Segment

/-- The texts of segments with points between them. -/
def joinTexts (segments : List Segment) : String := ".".intercalate (segments.map text)

theorem toList_texts_of_mapM {pieces : List (List Char)} {segments : List Segment}
    (h : pieces.mapM ofChars? = some segments) :
    (segments.map text).map String.toList = pieces := by
  have texts : List.Forall₂ (fun cs (s : Segment) => cs = s.text.toList) pieces segments :=
    (mapM_eq_some_iff.1 h).imp fun cs s hs => (toList_text_of_ofChars? hs).symm
  rw [List.map_map, eq_comm, ← List.forall₂_eq_eq_eq, List.forall₂_map_right_iff]
  exact texts

/-- The texts of the segments of a key make the key. -/
theorem joinTexts_of_ofKey {key : String} {segments : List Segment}
    (h : Segment.ofKey key = .ok segments) : joinTexts segments = key := by
  unfold Segment.ofKey at h
  split at h
  · rename_i parsed hparsed
    obtain rfl := Except.ok.inj h
    refine String.toList_inj.1 ?_
    rw [joinTexts, String.toList_intercalate, toList_texts_of_mapM hparsed]
    exact List.intercalate_splitOn '.'
  · cases h

theorem joinTexts_append {front back : List Segment} (hfront : front ≠ []) (hback : back ≠ []) :
    joinTexts (front ++ back) = joinTexts front ++ "." ++ joinTexts back := by
  rw [joinTexts, List.map_append, String.intercalate_append_of_ne_nil (by simpa using hfront)
    (by simpa using hback)]
  rfl

/-- Without tags, the texts of segments are their names. -/
theorem joinTexts_of_untagged {segments : List Segment} (h : ∀ s ∈ segments, s.tag = none) :
    joinTexts segments = joinNames segments := by
  have names : segments.map text = segments.map (·.name) :=
    List.map_congr_left fun s hs => by rw [text, h s hs]
  rw [joinTexts, joinNames, names]

end Segment

/-! ## What segments stand for -/

/-- What segments stand for from the root on. -/
inductive Chain.Resolves (g : Registry) (root : Entity) : List Segment → Chain → Prop
  /-- A property of the root: its name comes first and is not that of a relation. -/
  | plain {first : Segment} {rest : List Segment} (stops : root.relation? first.name = none)
    (declared : root.hasProperty first.name = true)
    (untagged : ∀ s ∈ first :: rest, s.tag = none) :
    Chain.Resolves g root (first :: rest) .plain
  /-- All segments lead along relations. -/
  | relations {chain : List Segment} {last : Entity} (nonempty : chain ≠ [])
    (leads : g.Leads root chain last) :
    Chain.Resolves g root chain (.relations chain)
  /-- A property of the entity at the end of a chain, which has to be declared there unless that
  entity is chosen by row. -/
  | property {chain rest : List Segment} {first : Segment} {last : Entity} (nonempty : chain ≠ [])
    (leads : g.Leads root chain last) (stops : last.relation? first.name = none)
    (declared : last.hasProperty first.name = true ∨
      ∃ r, g.lastRelation? root chain = some r ∧ r.isPolymorphic = true)
    (untagged : ∀ s ∈ first :: rest, s.tag = none) :
    Chain.Resolves g root (chain ++ first :: rest)
      (.property chain first.name (Segment.joinNames (first :: rest)))

/-- The texts of a chain, and the rest of the key after them.  A plain key is not kept. -/
def Chain.spelled? : Chain → Option String
  | plain => none
  | relations chain => some (Segment.joinTexts chain)
  | property chain _ rest => some s!"{Segment.joinTexts chain}.{rest}"

/-- No front of the segments leads further along relations than to where a segment names none. -/
theorem Registry.prefix_of_reached? {g : Registry} {owner last e : Entity}
    {chain rest front : List Segment} (hlast : g.reached? owner chain = some last)
    (stops : ∀ s ∈ rest.head?, last.relation? s.name = none) (hfront : front <+: chain ++ rest)
    (he : g.reached? owner front = some e) : front <+: chain := by
  obtain shorter | ⟨more, rfl⟩ :=
    List.prefix_or_prefix_of_prefix hfront (List.prefix_append chain rest)
  · exact shorter
  cases more with
  | nil => simp
  | cons s more =>
    obtain ⟨after, rfl⟩ := (List.prefix_append_right_inj chain).1 hfront
    rw [reached?_append, hlast, Option.bind_some, reached?_cons_eq_some] at he
    obtain ⟨r, next, hr, -, -⟩ := he
    cases hr.symm.trans (stops s rfl)

namespace Chain.Resolves

variable {g : Registry} {root : Entity} {segments : List Segment} {c : Chain}

/-- The chain and the rest spell the segments. -/
theorem spelled? (h : c.Resolves g root segments) (hplain : c ≠ .plain) :
    c.spelled? = some (Segment.joinTexts segments) := by
  cases h with
  | plain => exact absurd rfl hplain
  | relations => rfl
  | property nonempty leads stops declared untagged =>
    rw [Segment.joinTexts_append nonempty (by simp), Segment.joinTexts_of_untagged untagged]
    simp [Chain.spelled?, toString]

/-- The chain leads along relations. -/
theorem leads (h : c.Resolves g root segments) : ∃ last, g.Leads root c.segments last := by
  cases h with
  | plain => exact ⟨root, g.leads_nil root⟩
  | relations nonempty leads => exact ⟨_, leads⟩
  | property nonempty leads => exact ⟨_, leads⟩

theorem segments_prefix (h : c.Resolves g root segments) : c.segments <+: segments := by
  cases h with
  | plain => exact List.nil_prefix
  | relations => exact List.prefix_rfl
  | property => exact List.prefix_append _ _

/-- No longer front of the segments leads along relations. -/
theorem prefix_of_reached? (h : c.Resolves g root segments) {front : List Segment} {e : Entity}
    (hfront : front <+: segments) (he : g.reached? root front = some e) :
    front <+: c.segments := by
  cases h with
  | plain stops declared untagged =>
    exact Registry.prefix_of_reached? (g.leads_nil root).reached (by simpa using stops) hfront he
  | relations nonempty leads => exact hfront
  | property nonempty leads stops declared untagged =>
    exact Registry.prefix_of_reached? leads.reached (by simpa using stops) hfront he

/-- A walk along the segments succeeds just in case they stand for something, and tells for what. -/
theorem iff_walk {key : String} (hne : segments ≠ []) : c.Resolves g root segments ↔
    ∃ w, walk g key root false none segments = .ok w ∧ w.chain? root key = .ok c := by
  simp only [walk_eq_ok_iff, Walk.chain?_eq_ok_iff]
  constructor
  · intro h
    cases h with
    | plain stops declared untagged =>
      exact ⟨_, ⟨(g.leads_nil root).follows (by simpa using stops), by simp⟩, untagged,
        .inr ⟨_, _, rfl, .inl ⟨rfl, declared, rfl⟩⟩⟩
    | relations nonempty leads =>
      exact ⟨_, ⟨leads.follows_all, by simp⟩, by simp, .inl ⟨rfl, rfl⟩⟩
    | property nonempty leads stops declared untagged =>
      have chosen := declared.symm.imp_left (Option.any_eq_true _ _).2
      exact ⟨_, ⟨leads.follows (by simpa using stops), by simp⟩, untagged,
        .inr ⟨_, _, rfl, .inr ⟨nonempty, chosen, rfl⟩⟩⟩
  · rintro ⟨⟨chain, rest, last, polymorphic⟩, ⟨⟨rfl, leads, stops, start, ends⟩, -⟩, untagged, hc⟩
    dsimp only at leads stops start ends untagged hc hne ⊢
    obtain ⟨rfl, rfl⟩ | ⟨first, rest, rfl, ⟨rfl, declared, rfl⟩ | ⟨nonempty, chosen, rfl⟩⟩ := hc
    · rw [List.append_nil] at hne ⊢
      exact .relations hne leads
    · obtain rfl := Option.some.inj leads.reached
      exact .plain (stops first rfl) declared untagged
    · refine .property nonempty leads (stops first rfl) (chosen.symm.imp_right ?_) untagged
      rintro rfl
      obtain ⟨r, hr⟩ := Registry.exists_lastRelation? leads.reached nonempty
      exact ⟨r, hr, (ends r hr).symm⟩

end Chain.Resolves

namespace Chain

variable {g : Registry} {root : Entity} {key : String} {c : Chain}

/-- A key is resolved just in case it has segments that stand for something. -/
theorem ofKey_eq_ok_iff : Chain.ofKey g root key = .ok c ↔
    ∃ segments, Segment.ofKey key = .ok segments ∧ c.Resolves g root segments := by
  rw [Chain.ofKey, bind_eq_ok]
  refine exists_congr fun segments => and_congr_right fun hsegments => ?_
  rw [bind_eq_ok, Resolves.iff_walk (Segment.ne_nil_of_ofKey hsegments)]

/-- A key is resolved to what its segments stand for.  The chain is the longest front of them that
leads along relations, and with the rest it spells the key, unless the key is plain. -/
theorem ofKey_resolves (h : Chain.ofKey g root key = .ok c) : ∃ segments,
    Segment.ofKey key = .ok segments ∧ c.Resolves g root segments ∧ c.segments <+: segments ∧
    (∀ front e, front <+: segments → g.reached? root front = some e → front <+: c.segments) ∧
    (c = .plain ∨ c.spelled? = some key) := by
  obtain ⟨segments, hsegments, resolves⟩ := ofKey_eq_ok_iff.1 h
  refine ⟨segments, hsegments, resolves, resolves.segments_prefix,
    fun front e => resolves.prefix_of_reached?, ?_⟩
  by_cases hplain : c = .plain
  · exact .inl hplain
  · exact .inr (Segment.joinTexts_of_ofKey hsegments ▸ resolves.spelled? hplain)

/-- Couriers, whose cargo is of several kinds, and who work for other couriers. -/
def courier : Entity :=
  { name := "Courier", properties := [{ name := "id", isId := true }, { name := "name" }],
    relations := .ofList [
      ("boss", .direct ⟨.belongsTo, "Courier", none, none, none⟩),
      ("cargo", .direct ⟨.belongsTo, "Parcel", none, none, some ⟨none⟩⟩)] }

/-- Couriers, and what they carry. -/
def couriers : Registry := ⟨.ofList [
  courier,
  { name := "Parcel", properties := [{ name := "id", isId := true }, { name := "title" }] },
  { name := "Crate", properties := [{ name := "id", isId := true }, { name := "label" }] }]⟩

theorem ofKey_resolves_couriers : ∃ c : Chain,
    c = .property [⟨"boss", none⟩, ⟨"boss", none⟩, ⟨"cargo", some "Crate"⟩] "label"
      "label.text" ∧
    Chain.ofKey couriers courier "boss.boss.cargo(Crate).label.text" = .ok c ∧
    ∃ segments, Segment.ofKey "boss.boss.cargo(Crate).label.text" = .ok segments ∧
      c.Resolves couriers courier segments ∧ c.segments <+: segments ∧
      (∀ front e, front <+: segments → couriers.reached? courier front = some e →
        front <+: c.segments) ∧
      (c = .plain ∨ c.spelled? = some "boss.boss.cargo(Crate).label.text") := by
  have resolved : Chain.ofKey couriers courier "boss.boss.cargo(Crate).label.text" =
      .ok (.property [⟨"boss", none⟩, ⟨"boss", none⟩, ⟨"cargo", some "Crate"⟩] "label"
        "label.text") := by
    decide +kernel
  exact ⟨_, rfl, resolved, ofKey_resolves resolved⟩

/-- A tag can end a chain, but a property has none. -/
example :
    Chain.ofKey couriers courier "boss.cargo(Crate)" =
      .ok (.relations [⟨"boss", none⟩, ⟨"cargo", some "Crate"⟩]) ∧
    Chain.ofKey couriers courier "boss.name(Crate)" =
      .error (.invalidPolymorphicUsage "boss.name(Crate)"
        "'name' is a property and cannot carry a tag") := by
  decide +kernel

end Chain

end FilterSql
