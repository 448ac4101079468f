import FilterSql.Filter.Basic
import FilterSql.Plan.Planner
import FilterSql.Proofs.Outcome
import FilterSql.Proofs.Text.Pieces

/-!
# Spellings of an order

The keys of an order and their directions may be written in many ways: in one text or in several,
with blanks and commas around them, and with the direction behind a blank or behind a comma, in any
case (`OrderSpec.Writes`).  All of them have an entry for each key, which reads as the key and its
direction (`entries_of_writes`).  Entries are `Neat`, so the entries of entries are the same.
-/

namespace FilterSql

open Sql

namespace OrderSpec

/-! ## Pieces between commas -/

/-- The characters are one piece of an order: there are some, no comma is among them, and no blank
at either end. -/
structure Neat (cs : List Char) : Prop where
  ne_nil : cs ≠ []
  comma : ',' ∉ cs
  trimmed : Text.Trimmed cs

/-- The trimmed pieces of characters. -/
def trimmedPieces (cs : List Char) : List String := commaPieces (String.ofList cs)

theorem trimmedPieces_toList (s : String) : trimmedPieces s.toList = commaPieces s := by
  rw [trimmedPieces, String.ofList_toList]

theorem trimmedPieces_eq (cs : List Char) : trimmedPieces cs =
    ((cs.splitOn ',').map fun p => String.ofList (Text.trimChars p)).filter (· != "") := by
  simp [trimmedPieces, commaPieces, Text.split, Text.trim, List.splitOn_eq_splitOnP,
    Function.comp_def]

theorem trimmedPieces_nil : trimmedPieces [] = [] := by decide

theorem trimmedPieces_append_comma (xs ys : List Char) :
    trimmedPieces (xs ++ ',' :: ys) = trimmedPieces xs ++ trimmedPieces ys := by
  simp only [trimmedPieces_eq]
  rw [List.splitOn_append_cons_self, List.map_append, List.filter_append]

theorem trimmedPieces_cons_of_blank {c : Char} (h : Text.isBlank c = true) (cs : List Char) :
    trimmedPieces (c :: cs) = trimmedPieces cs := by
  have hc : ¬ (c == ',') = true := by
    rw [beq_iff_eq]
    rintro rfl
    exact absurd h (by decide)
  obtain ⟨first, more, hcs⟩ := List.exists_cons_of_ne_nil (List.splitOn_ne_nil ',' cs)
  rw [trimmedPieces_eq, trimmedPieces_eq, List.splitOn_cons_eq_if_modifyHead, if_neg hc, hcs,
    List.modifyHead_cons, List.map_cons, List.map_cons, Text.trimChars_cons_of_blank h]

/-- Nothing but blanks and commas. -/
def Filler (cs : List Char) : Prop := ∀ c ∈ cs, (Text.isBlank c || c == ',') = true

/-- What stands before a piece is no part of it. -/
theorem Filler.trimmedPieces_append {xs : List Char} (h : Filler xs) (ys : List Char) :
    trimmedPieces (xs ++ ys) = trimmedPieces ys := by
  induction xs with
  | nil => rfl
  | cons x xs ih =>
    have rest := ih fun c hc => h c (List.mem_cons_of_mem _ hc)
    by_cases hx : Text.isBlank x = true
    · rw [List.cons_append, trimmedPieces_cons_of_blank hx, rest]
    · obtain rfl : x = ',' := by simpa [hx] using h x List.mem_cons_self
      have cut := trimmedPieces_append_comma [] (xs ++ ys)
      rw [trimmedPieces_nil, List.nil_append, List.nil_append, rest] at cut
      exact cut

/-- Nothing but blanks. -/
def Gap (cs : List Char) : Prop := ∀ c ∈ cs, Text.isBlank c = true

theorem Neat.trimmedPieces_append {cs gap : List Char} (h : Neat cs) (hgap : Gap gap) :
    trimmedPieces (cs ++ gap) = [String.ofList cs] := by
  have whole : ',' ∉ cs ++ gap := by
    intro hcomma
    obtain hcomma | hcomma := List.mem_append.1 hcomma
    · exact h.comma hcomma
    · exact absurd (hgap _ hcomma) (by decide)
  rw [trimmedPieces_eq, List.splitOn_eq_singleton whole, List.map_singleton,
    Text.trimChars_append_of_blank hgap, h.trimmed.trimChars_eq]
  simp [h.ne_nil]

theorem Gap.nil : Gap [] := by simp [Gap]

theorem Neat.commaPieces_eq {s : String} (h : Neat s.toList) : commaPieces s = [s] := by
  have piece := h.trimmedPieces_append .nil
  rwa [List.append_nil, trimmedPieces_toList, String.ofList_toList] at piece

theorem neat_of_mem_commaPieces {s p : String} (h : p ∈ commaPieces s) :
    Neat p.toList := by
  obtain ⟨h, hne⟩ := List.mem_filter.1 h
  obtain ⟨piece, hpiece, rfl⟩ := List.mem_map.1 h
  obtain ⟨cs, hcs, rfl⟩ := List.mem_map.1 hpiece
  rw [Text.trim, String.toList_ofList] at hne ⊢
  rw [String.toList_ofList]
  refine ⟨?_, fun hcomma => ?_, Text.trimmed_trimChars cs⟩
  · rintro hnil
    simp [hnil] at hne
  · simpa using Text.eq_false_of_mem_splitOnP hcs (Text.mem_of_mem_trimChars hcomma)

/-- Pieces with a blank in between are one piece. -/
theorem Neat.append {xs gap ys : List Char} (hx : Neat xs) (hgap : Gap gap) (hy : Neat ys) :
    Neat (xs ++ (gap ++ ys)) where
  ne_nil := by simp [hx.ne_nil]
  comma := by
    simp only [List.mem_append, not_or]
    refine ⟨hx.comma, fun hcomma => ?_, hy.comma⟩
    exact absurd (hgap _ hcomma) (by decide)
  trimmed := by
    constructor
    · rw [List.head?_append_of_ne_nil _ hx.ne_nil]
      exact hx.trimmed.head
    · rw [← List.append_assoc, List.getLast?_append_of_ne_nil _ hy.ne_nil]
      exact hy.trimmed.last

theorem toList_withDirection (p d : String) :
    s!"{p} {d}".toList = p.toList ++ ([' '] ++ d.toList) := by
  simp [toString]

theorem neat_of_mem_joinDirections {ps : List String} (hps : ∀ p ∈ ps, Neat p.toList)
    {entry : String} (h : entry ∈ joinDirections ps) : Neat entry.toList := by
  fun_induction joinDirections ps with
  | case1 p d rest hd ih =>
    obtain ⟨hp, hd, hrest⟩ : Neat p.toList ∧ Neat d.toList ∧ ∀ q ∈ rest, Neat q.toList := by
      simpa using hps
    obtain rfl | h := List.mem_cons.1 h
    · rw [toList_withDirection]
      exact hp.append (by simp [Gap, Text.isBlank]) hd
    · exact ih hrest h
  | case2 p d rest hd ih =>
    obtain rfl | h := List.mem_cons.1 h
    · exact hps entry List.mem_cons_self
    · exact ih (fun q hq => hps q (List.mem_cons_of_mem _ hq)) h
  | case3 ps hps' => exact hps entry h

/-- Every entry of an order is one piece. -/
theorem neat_of_mem_entries {o : OrderSpec} {entry : String} (h : entry ∈ o.entries) :
    Neat entry.toList := by
  obtain ⟨s, -, h⟩ := List.mem_flatMap.1 h
  have pieces : ∀ p ∈ commaPieces s, Neat p.toList := fun p => neat_of_mem_commaPieces
  exact neat_of_mem_joinDirections pieces h

/-- One piece begins with a key. -/
theorem Neat.orderWords {s : String} (h : Neat s.toList) :
    ∃ directions, orderWords s = orderKey s :: directions := by
  obtain ⟨c, cs, hs⟩ := List.exists_cons_of_ne_nil h.ne_nil
  have mem : c ∈ s.toList := hs ▸ List.mem_cons_self
  have comma : c ≠ ',' := fun hc => h.comma (hc ▸ mem)
  have blank : Text.isBlank c = false := h.trimmed.head c (by simp [hs])
  have nonempty : FilterSql.orderWords s ≠ [] := Text.words_ne_nil mem (by simp [comma, blank])
  obtain ⟨key, directions, hwords⟩ := List.exists_cons_of_ne_nil nonempty
  exact ⟨directions, by rw [orderKey, hwords]; rfl⟩

/-- The entries of entries are these entries. -/
theorem entries_entries (o : OrderSpec) : (OrderSpec.many o.entries).entries = o.entries := by
  have single : ∀ e ∈ o.entries, joinDirections (commaPieces e) = [e] := by
    intro e he
    rw [(neat_of_mem_entries he).commaPieces_eq]
    rfl
  calc (OrderSpec.many o.entries).entries
      = o.entries.flatMap fun e => joinDirections (commaPieces e) := rfl
    _ = o.entries.flatMap fun e => [e] := List.flatMap_congr single
    _ = o.entries := List.flatMap_singleton' _

/-! ## Directions -/

/-- The text is the name of the direction, in any case. -/
def Names (d : Direction) (word : String) : Prop := Text.sameIgnoringCase word d.name = true

instance (d : Direction) (word : String) : Decidable (Names d word) :=
  inferInstanceAs (Decidable (_ = true))

variable {d : Direction} {word : String}

theorem Names.isDirection (h : Names d word) : isDirection word = true := by
  rw [Names] at h
  cases d <;> simp_all [OrderSpec.isDirection, Direction.name]

theorem Names.ofName (h : Names d word) : Direction.ofName (some word) = d := by
  cases d with
  | desc => exact if_pos h
  | asc =>
    have other : Text.sameIgnoringCase word "desc" ≠ true := by
      intro hdesc
      have same := (beq_iff_eq.1 h).symm.trans (beq_iff_eq.1 hdesc)
      exact absurd same (by decide)
    exact if_neg other

/-- May the character stand between the words of an entry? -/
def isSeparator (c : Char) : Bool := Text.isBlank c || c == ','

theorem toLower_of_isSeparator {c : Char} (h : isSeparator c = true) : c.toLower = c := by
  unfold Char.toLower
  refine dif_neg fun hupper => ?_
  have lower : 65 ≤ c.toNat := UInt32.le_iff_toNat_le.1 hupper.1
  have upper : c.toNat ≤ 90 := UInt32.le_iff_toNat_le.1 hupper.2
  simp only [isSeparator, Text.isBlank, Bool.or_eq_true, Bool.and_eq_true, decide_eq_true_eq,
    beq_iff_eq] at h
  obtain h | rfl := h
  · omega
  · exact absurd lower (by decide)

/-- A direction is a word. -/
theorem word_of_isDirection (h : isDirection word = true) :
    word.toList ≠ [] ∧ ∀ c ∈ word.toList, isSeparator c = false := by
  have lowered : word.toList.map Char.toLower = ['a', 's', 'c'] ∨
      word.toList.map Char.toLower = ['d', 'e', 's', 'c'] := by
    simpa [isDirection, Text.sameIgnoringCase] using h
  refine ⟨fun hnil => by simp [hnil] at lowered, fun c hc => ?_⟩
  have letter : c.toLower ∈ word.toList.map Char.toLower := List.mem_map_of_mem hc
  have letters : ['a', 's', 'c'].all (fun c => !isSeparator c) = true ∧
      ['d', 'e', 's', 'c'].all (fun c => !isSeparator c) = true := by decide
  have plain : isSeparator c.toLower = false := by
    obtain h | h := lowered
    · rw [h] at letter
      simpa using List.all_eq_true.1 letters.1 _ letter
    · rw [h] at letter
      simpa using List.all_eq_true.1 letters.2 _ letter
  by_contra hsep
  rw [Bool.not_eq_false] at hsep
  rw [toLower_of_isSeparator hsep, hsep] at plain
  cases plain

theorem joinDirections_cons {rest : List String} (p : String)
    (h : ∀ d ∈ rest.head?, isDirection d = false) :
    joinDirections (p :: rest) = p :: joinDirections rest := by
  cases rest with
  | nil => rfl
  | cons d rest =>
    rw [joinDirections, h d rfl]
    simp

end OrderSpec

/-! ## Spellings -/

open OrderSpec

/-- A key of an order and its direction, if it is said.  The key is a word, and not the name of a
direction. -/
structure SortKey where
  key : String
  direction : Option Direction
  ne_empty : key ≠ ""
  word : ∀ c ∈ key.toList, isSeparator c = false
  plain : isDirection key = false

namespace SortKey

/-- The direction that is meant. -/
def effective (k : SortKey) : Direction := k.direction.getD .asc

/-- The characters spell the key, and after it, behind blanks or a comma, its direction. -/
inductive Written (k : SortKey) : List Char → Prop
  | key (h : k.direction = none) : Written k k.key.toList
  | blank {d : Direction} {gap : List Char} {word : String} (h : k.direction = some d)
    (hne : gap ≠ []) (hgap : Gap gap) (hword : Names d word) :
    Written k (k.key.toList ++ (gap ++ word.toList))
  | comma {d : Direction} {gap filler : List Char} {word : String} (h : k.direction = some d)
    (hgap : Gap gap) (hfiller : Filler filler) (hword : Names d word) :
    Written k (k.key.toList ++ gap ++ ',' :: (filler ++ word.toList))

/-- The entry is read as the key with its direction. -/
def Reads (k : SortKey) (entry : String) : Prop :=
  ∃ directions, orderWords entry = k.key :: directions ∧
    Direction.ofName directions.head? = k.effective

end SortKey

/-- The characters spell the keys one after the other, with commas between them, and with blanks and
more commas around them. -/
inductive OrderSpec.WritesText : List SortKey → List Char → Prop
  | nil {filler : List Char} (hfiller : Filler filler) : WritesText [] filler
  | last {k : SortKey} {filler cs gap : List Char} (hfiller : Filler filler) (hk : k.Written cs)
    (hgap : Gap gap) : WritesText [k] (filler ++ (cs ++ gap))
  | cons {k : SortKey} {ks : List SortKey} {filler cs gap rest : List Char}
    (hfiller : Filler filler) (hk : k.Written cs) (hgap : Gap gap) (hrest : WritesText ks rest) :
    WritesText (k :: ks) (filler ++ (cs ++ gap ++ ',' :: rest))

/-- The order spells the keys, in one text or distributed over several. -/
inductive OrderSpec.Writes : List SortKey → OrderSpec → Prop
  | one {ks : List SortKey} {s : String} (h : WritesText ks s.toList) : Writes ks (.one s)
  | many {groups : List (List SortKey)} {ss : List String}
    (h : List.Forall₂ (fun ks s => WritesText ks s.toList) groups ss) :
    Writes groups.flatten (.many ss)

namespace SortKey

variable {k : SortKey} {cs gap : List Char}

theorem neat_of_word {word : String} (hne : word.toList ≠ [])
    (h : ∀ c ∈ word.toList, isSeparator c = false) : Neat word.toList := by
  have blank : ∀ c ∈ word.toList, Text.isBlank c = false := fun c hc =>
    (Bool.or_eq_false_iff.1 (h c hc)).1
  refine ⟨hne, fun hcomma => absurd (h _ hcomma) (by decide), ?_, ?_⟩
  · exact fun c hc => blank c (List.mem_of_mem_head? hc)
  · exact fun c hc => blank c (List.mem_of_mem_getLast? hc)

theorem key_ne_nil (k : SortKey) : k.key.toList ≠ [] := by
  simpa using k.ne_empty

theorem neat_key (k : SortKey) : Neat k.key.toList := neat_of_word k.key_ne_nil k.word

theorem reads_key (h : k.direction = none) : k.Reads k.key := by
  refine ⟨[], ?_, by rw [effective, h]; rfl⟩
  have run : Text.runs isSeparator k.key.toList = [k.key.toList] :=
    Text.runs_of_forall k.key_ne_nil k.word
  show (Text.runs isSeparator k.key.toList).map String.ofList = [k.key]
  rw [run, List.map_singleton, String.ofList_toList]

/-- The words of a key and its direction. -/
theorem reads_pair {d : Direction} {word : String} (h : k.direction = some d) (hne : gap ≠ [])
    (hgap : Gap gap) (hword : Names d word) :
    k.Reads (String.ofList (k.key.toList ++ (gap ++ word.toList))) := by
  obtain ⟨hword_ne, hword_plain⟩ := word_of_isDirection hword.isDirection
  obtain ⟨c, gap, rfl⟩ := List.exists_cons_of_ne_nil hne
  have separators : ∀ x ∈ c :: gap, isSeparator x = true := fun x hx => by
    simp [isSeparator, hgap x hx]
  refine ⟨[word], ?_, by rw [effective, h]; exact hword.ofName⟩
  show (Text.runs isSeparator (String.toList _)).map String.ofList = [k.key, word]
  rw [String.toList_ofList, List.cons_append,
    Text.runs_append_sep (separators c List.mem_cons_self),
    Text.runs_append_of_forall fun c hc => separators c (List.mem_cons_of_mem _ hc),
    Text.runs_of_forall k.key_ne_nil k.word, Text.runs_of_forall hword_ne hword_plain]
  simp

/-- However a key is written, its pieces begin with one that is no direction, and with anything
behind them that begins so too they make an entry of their own, which is read as the key. -/
theorem Written.pieces (h : k.Written cs) (hgap : Gap gap) : ∃ first more,
    trimmedPieces (cs ++ gap) = first :: more ∧ isDirection first = false ∧
    ∀ rest : List String, (∀ d ∈ rest.head?, isDirection d = false) → ∃ entry,
      k.Reads entry ∧ joinDirections (first :: (more ++ rest)) = entry :: joinDirections rest := by
  cases h with
  | key h =>
    refine ⟨k.key, [], ?_, k.plain, fun rest hrest => ⟨k.key, reads_key h, ?_⟩⟩
    · rw [k.neat_key.trimmedPieces_append hgap, String.ofList_toList]
    · exact joinDirections_cons k.key hrest
  | @blank d inner word h hne hinner hword =>
    obtain ⟨hword_ne, hword_plain⟩ := word_of_isDirection hword.isDirection
    have neat := k.neat_key.append hinner (neat_of_word hword_ne hword_plain)
    refine ⟨_, [], neat.trimmedPieces_append hgap, ?_, fun rest hrest =>
      ⟨_, reads_pair h hne hinner hword, joinDirections_cons _ hrest⟩⟩
    -- The piece has a blank in it, and directions have none.
    by_contra hdirection
    rw [Bool.not_eq_false] at hdirection
    obtain ⟨c, inner, rfl⟩ := List.exists_cons_of_ne_nil hne
    have plain := (word_of_isDirection hdirection).2 c (by simp)
    rw [isSeparator, hinner c List.mem_cons_self] at plain
    cases plain
  | @comma d inner filler word h hinner hfiller hword =>
    obtain ⟨hword_ne, hword_plain⟩ := word_of_isDirection hword.isDirection
    refine ⟨k.key, [word], ?_, k.plain, fun rest hrest => ⟨s!"{k.key} {word}", ?_, ?_⟩⟩
    · rw [List.append_assoc, List.cons_append, trimmedPieces_append_comma, List.append_assoc,
        hfiller.trimmedPieces_append, k.neat_key.trimmedPieces_append hinner,
        (neat_of_word hword_ne hword_plain).trimmedPieces_append hgap, String.ofList_toList,
        String.ofList_toList]
      rfl
    · have pair := reads_pair h (List.cons_ne_nil ' ' []) (by simp [Gap, Text.isBlank]) hword
      rwa [← toList_withDirection, String.ofList_toList] at pair
    · have unblank : k.key.toList.any Text.isBlank = false := by
        rw [List.any_eq_false]
        intro c hc
        simp [(Bool.or_eq_false_iff.1 (k.word c hc)).1]
      show joinDirections (k.key :: word :: rest) = _
      rw [joinDirections, if_pos (by simp [hword.isDirection, unblank])]

end SortKey

section

variable {ks : List SortKey}

/-- The entries of a text that spells keys, which do not begin with a direction. -/
theorem OrderSpec.WritesText.reads {cs : List Char} (h : WritesText ks cs) :
    (∀ d ∈ (trimmedPieces cs).head?, isDirection d = false) ∧
      List.Forall₂ SortKey.Reads ks (joinDirections (trimmedPieces cs)) := by
  induction h with
  | @nil filler hfiller =>
    have none : trimmedPieces filler = [] := by
      simpa [trimmedPieces_nil] using hfiller.trimmedPieces_append []
    rw [none]
    exact ⟨by simp, .nil⟩
  | last hfiller hk hgap =>
    obtain ⟨first, more, hpieces, hfirst, hjoin⟩ := hk.pieces hgap
    rw [hfiller.trimmedPieces_append, hpieces]
    obtain ⟨entry, hreads, hentry⟩ := hjoin [] (by simp)
    rw [List.append_nil] at hentry
    exact ⟨by simpa using hfirst, hentry ▸ .cons hreads .nil⟩
  | @cons k ks filler cs gap rest hfiller hk hgap hrest ih =>
    obtain ⟨first, more, hpieces, hfirst, hjoin⟩ := hk.pieces hgap
    rw [hfiller.trimmedPieces_append, trimmedPieces_append_comma, hpieces]
    obtain ⟨entry, hreads, hentry⟩ := hjoin (trimmedPieces rest) ih.1
    rw [List.cons_append, hentry]
    exact ⟨by simpa using hfirst, .cons hreads ih.2⟩

/-- However the keys are spelled, each of them has its entry. -/
theorem OrderSpec.Writes.reads {o : OrderSpec} (h : Writes ks o) :
    List.Forall₂ SortKey.Reads ks o.entries := by
  have text {ks : List SortKey} {s : String} (h : WritesText ks s.toList) :
      List.Forall₂ SortKey.Reads ks (joinDirections (commaPieces s)) := by
    rw [← trimmedPieces_toList]
    exact h.reads.2
  cases h with
  | one h =>
    rw [entries, texts, List.flatMap_singleton]
    exact text h
  | many h =>
    rw [entries, texts]
    induction h with
    | nil => exact .nil
    | cons h _ ih => exact List.rel_append (text h) ih

theorem SortKey.Reads.orderKey {k : SortKey} {entry : String} (h : k.Reads entry) :
    orderKey entry = k.key := by
  obtain ⟨directions, hwords, -⟩ := h
  rw [FilterSql.orderKey, hwords]
  rfl

/-- Entries have their items one by one, with the directions that are meant. -/
theorem orderItems_of_reads {entries : List String} (h : List.Forall₂ SortKey.Reads ks entries)
    (g : Registry) (root : Entity) (s : Session) :
    orderItems g root s entries = ks.mapM fun k => do
      let expr ← orderExpr g root s k.key
      return ⟨expr, some k.effective⟩ := by
  induction h with
  | nil => rfl
  | @cons k entry ks entries hentry _ ih =>
    obtain ⟨directions, hwords, hdirection⟩ := hentry
    rw [orderItems, hwords, List.mapM_cons, ih]
    dsimp only
    rw [hdirection]
    simp only [bind_assoc, pure_bind]

/-- However keys and directions are spelled, there is an entry for each key, which begins with the
key and is read as the key with its direction, ascending if none is said; and the items of the order
are those of the keys, one by one.  The entries of an order, as an order, are the same entries. -/
theorem entries_of_writes {o : OrderSpec} (h : Writes ks o) :
    List.Forall₂ (fun k entry => orderKey entry = k.key ∧ ∃ directions,
        orderWords entry = k.key :: directions ∧
          Direction.ofName directions.head? = k.direction.getD .asc) ks o.entries ∧
      (∀ g root s, orderItems g root s o.entries = ks.mapM fun k => do
        let expr ← orderExpr g root s k.key
        return ⟨expr, some (k.direction.getD .asc)⟩) ∧
      ∀ o' : OrderSpec, (OrderSpec.many o'.entries).entries = o'.entries :=
  ⟨h.reads.imp fun _ _ reads => ⟨reads.orderKey, reads⟩, orderItems_of_reads h.reads,
    entries_entries⟩

/-- Titles, without a direction. -/
def titleKey : SortKey :=
  ⟨"title", none, by decide, by simp [isSeparator, Text.isBlank], by decide⟩

/-- Years, from the last one on. -/
def yearKey : SortKey :=
  ⟨"year", some .desc, by decide, by simp [isSeparator, Text.isBlank], by decide⟩

/-- Numbers of tracks. -/
def trackKey : SortKey :=
  ⟨"tracks.no", some .asc, by decide, by simp [isSeparator, Text.isBlank], by decide⟩

/-- The three keys in two texts, with a direction behind a comma and one behind a tabulator. -/
def albumOrder : OrderSpec := .many [" title,, year , DESC", "tracks.no\tAsc ,"]

theorem writes_albumOrder : Writes [titleKey, yearKey, trackKey] albumOrder := by
  have gap : Gap [' '] := by simp [Gap, Text.isBlank]
  have filler : Filler [' '] := by simp [Filler, Text.isBlank]
  have year : WritesText [yearKey] ", year , DESC".toList :=
    @WritesText.last yearKey [',', ' '] _ [] (by simp [Filler, Text.isBlank])
      (@SortKey.Written.comma yearKey .desc [' '] [' '] "DESC" rfl gap filler (by decide)) .nil
  have titles : WritesText [titleKey, yearKey] " title,, year , DESC".toList :=
    @WritesText.cons titleKey [yearKey] [' '] _ [] _ filler (.key rfl) .nil year
  have tracks : WritesText [trackKey] "tracks.no\tAsc ,".toList :=
    @WritesText.cons trackKey [] [] _ [' '] [] (by simp [Filler])
      (@SortKey.Written.blank trackKey .asc ['\t'] "Asc" rfl (by simp)
        (by simp [Gap, Text.isBlank]) (by decide)) gap (.nil (by simp [Filler]))
  exact @Writes.many [[titleKey, yearKey], [trackKey]] _ (.cons titles (.cons tracks .nil))

theorem entries_of_writes_albums : Writes [titleKey, yearKey, trackKey] albumOrder ∧
    albumOrder.entries = ["title", "year DESC", "tracks.no\tAsc"] ∧
    List.Forall₂ (fun k entry => orderKey entry = k.key ∧ ∃ directions,
        orderWords entry = k.key :: directions ∧
          Direction.ofName directions.head? = k.direction.getD .asc)
      [titleKey, yearKey, trackKey] albumOrder.entries ∧
    (∀ g root s, orderItems g root s albumOrder.entries =
      [titleKey, yearKey, trackKey].mapM fun k => do
        let expr ← orderExpr g root s k.key
        return ⟨expr, some (k.direction.getD .asc)⟩) ∧
    (OrderSpec.many albumOrder.entries).entries = albumOrder.entries := by
  obtain ⟨reads, items, same⟩ := entries_of_writes writes_albumOrder
  exact ⟨writes_albumOrder, by decide, reads, items, same albumOrder⟩

end

end FilterSql
