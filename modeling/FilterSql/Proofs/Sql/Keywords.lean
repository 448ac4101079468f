import FilterSql.Proofs.Sql.Rendering
import FilterSql.Proofs.Sql.Words

/-!
# Keywords of bounds

The words `limit` and `offset` of a text open the clauses that bound the number of rows.  Everything
else that a statement says consists of other `phrases`.  No phrase has two characters side by side
by which these words could be told (`Apart`), and neither have two pieces where they meet, so the
words are not made by chance (`not_isBound_of_phrases`).
-/

namespace FilterSql.Sql

namespace Word

/-- The word that opens the clause of the greatest number of rows. -/
def limit : Word := .run "limit".toList

/-- The word that opens the clause of the number of rows to be left out. -/
def offset : Word := .run "offset".toList

/-- Does the word open a clause that bounds the number of rows? -/
def IsBound (w : Word) : Prop := w = limit ∨ w = offset

end Word

/-- The fixed texts apart from those that open the clauses of bounds. -/
def phrases : List String := vocabulary.filter fun s => s != " limit " && s != " offset "

/-- A fixed text is a phrase. -/
def Piece.IsPhrase : Piece → Prop
  | .fixed s => s ∈ phrases
  | _ => True

/-- Pieces whose fixed texts are phrases. -/
def Phrases (ps : List Piece) : Prop := ∀ p ∈ ps, p.IsPhrase

/-- Are the tokens not the middle of `limit`, and not that of `offset`? -/
def Apart : Token → Token → Prop
  | .bare c, .bare c' => ¬ (c = 'm' ∧ c' = 'i') ∧ ¬ (c = 'f' ∧ c' = 'f')
  | _, _ => True

instance : DecidableRel Apart
  | .bare _, .bare _ => inferInstanceAs (Decidable (_ ∧ _))
  | .bare _, .name _ | .bare _, .literal _ | .name _, _ | .literal _, _ => .isTrue trivial

/-! ## Runs -/

/-- A character before tokens is the first of a run, alone or with the run at their start.  The
other words are theirs. -/
theorem attach_eq (c : Char) (ts : List Token) :
    ∃ cs ws, attach c (startsRun ts) (tokenWords ts) = .run (c :: cs) :: ws ∧
      ws ⊆ tokenWords ts ∧ (cs = [] ∨ startsRun ts = true ∧ tokenWords ts = .run cs :: ws) := by
  cases hstarts : startsRun ts with
  | false => exact ⟨[], tokenWords ts, rfl, List.Subset.refl _, .inl rfl⟩
  | true =>
    obtain ⟨cs, ws, hwords⟩ := tokenWords_of_startsRun hstarts
    rw [hwords]
    exact ⟨cs, ws, rfl, List.subset_cons_self _ _, .inr ⟨rfl, rfl⟩⟩

/-- The characters of a run are tokens one after the other; those of a run at the start are the
first. -/
theorem runs_consecutive (ts : List Token) :
    (∀ cs, .run cs ∈ tokenWords ts → cs.map .bare <:+: ts) ∧
      (startsRun ts = true → ∀ cs ws, tokenWords ts = .run cs :: ws → cs.map .bare <+: ts) := by
  induction ts with
  | nil => simp [tokenWords]
  | cons t ts ih =>
    obtain ⟨within, first⟩ := ih
    have later {cs : List Char} (h : .run cs ∈ tokenWords ts) : cs.map .bare <:+: t :: ts :=
      (within cs h).trans (List.suffix_cons t ts).isInfix
    cases t with
    | name _ | literal _ =>
      refine ⟨fun cs h => later ?_, fun h => by simp [startsRun] at h⟩
      simpa [tokenWords] using h
    | bare c =>
      rw [tokenWords]
      split_ifs with hblank hmark
      · exact ⟨fun cs => later, fun h => by simp [startsRun, isLoose, hblank] at h⟩
      · refine ⟨fun cs h => later (by simpa using h), fun h => ?_⟩
        simp [startsRun, isLoose, hmark] at h
      · obtain ⟨cs, ws, hattach, hws, hcs⟩ := attach_eq c ts
        have rest : cs.map .bare <+: ts := by
          obtain rfl | ⟨hstarts, hwords⟩ := hcs
          · exact List.nil_prefix
          · exact first hstarts cs ws hwords
        have starts : (c :: cs).map .bare <+: .bare c :: ts := List.cons_prefix_cons.2 ⟨rfl, rest⟩
        rw [hattach]
        refine ⟨fun ds h => ?_, fun _ ds us h => ?_⟩
        · obtain h | h := List.mem_cons.1 h
          · obtain rfl := Word.run.inj h
            exact starts.isInfix
          · exact later (hws h)
        · obtain ⟨h, -⟩ := List.cons.inj h
          obtain rfl := Word.run.inj h
          exact starts

/-- Tokens that are apart have no word of a bound. -/
theorem not_isBound_of_apart {ts : List Token} (h : ts.IsChain Apart) :
    ∀ w ∈ tokenWords ts, ¬ w.IsBound := by
  have run {cs : List Char} (hcs : .run cs ∈ tokenWords ts) : (cs.map Token.bare).IsChain Apart :=
    List.IsChain.infix h ((runs_consecutive ts).1 cs hcs)
  rintro w hw (rfl | rfl)
  · exact absurd (run hw) (by decide)
  · exact absurd (run hw) (by decide)

/-! ## Phrases -/

/-- Nothing follows the character in the middle of the two words. -/
theorem apart_of_ne {c : Char} (hm : c ≠ 'm') (hf : c ≠ 'f') : ∀ t, Apart (.bare c) t
  | .bare _ => ⟨fun h => hm h.1, fun h => hf h.1⟩
  | .name _ | .literal _ => trivial

theorem apart_phrases : ∀ s ∈ phrases, (s.toList.map Token.bare).IsChain Apart ∧
    s.toList.getLast? ≠ some 'm' ∧ s.toList.getLast? ≠ some 'f' := by
  decide

variable {d : Dialect}

theorem apart_placeholder (i : Nat) {ts : List Token} (h : ts.IsChain Apart) :
    ((placeholder d i).map Token.bare ++ ts).IsChain Apart := by
  have plain : ∀ c ∈ placeholder d i, c ≠ 'm' ∧ c ≠ 'f' := by
    intro c hc
    cases d with
    | postgres =>
      obtain rfl | hc := List.mem_cons.1 hc
      · exact ⟨by decide, by decide⟩
      · exact ⟨Text.ne_of_isDigit (Text.isDigit_naturalChars hc) (by decide),
          Text.ne_of_isDigit (Text.isDigit_naturalChars hc) (by decide)⟩
    | mysql | sqlite =>
      obtain rfl := List.mem_singleton.1 hc
      exact ⟨by decide, by decide⟩
  generalize placeholder d i = cs at plain
  induction cs with
  | nil => exact h
  | cons c cs ih =>
    obtain ⟨hm, hf⟩ := plain c List.mem_cons_self
    exact List.isChain_cons.2 ⟨fun t _ => apart_of_ne hm hf t,
      ih fun c hc => plain c (List.mem_cons_of_mem _ hc)⟩

/-- The tokens of phrases are apart. -/
theorem apart_tokens {ps : List Piece} (h : Phrases ps) (i : Nat) :
    (tokens d i ps).IsChain Apart := by
  induction ps generalizing i with
  | nil => exact .nil
  | cons p ps ih =>
    obtain ⟨hp, hps⟩ := List.forall_mem_cons.1 h
    cases p with
    | fixed s =>
      obtain ⟨hs, hm, hf⟩ := apart_phrases s hp
      refine hs.append (ih hps i) fun t ht u _ => ?_
      rw [List.getLast?_map] at ht
      obtain ⟨c, hc, rfl⟩ := Option.map_eq_some_iff.1 ht
      refine apart_of_ne ?_ ?_ u
      · rintro rfl
        exact hm hc
      · rintro rfl
        exact hf hc
    | name s => exact List.isChain_cons.2 ⟨fun _ _ => trivial, ih hps i⟩
    | literal s => exact List.isChain_cons.2 ⟨fun _ _ => trivial, ih hps i⟩
    | bound v => exact apart_placeholder i (ih hps (i + 1))

/-- No word of phrases opens the clause of a bound. -/
theorem not_isBound_of_phrases {ps : List Piece} (h : Phrases ps) (i : Nat) :
    ∀ w ∈ wordsOf d i ps, ¬ w.IsBound :=
  not_isBound_of_apart (apart_tokens h i)

/-! ## Expressions -/

namespace Phrases

variable {ps qs : List Piece} {s : String}

theorem nil : Phrases [] := List.forall_mem_nil _

theorem singleton {p : Piece} (h : p.IsPhrase) : Phrases [p] := List.forall_mem_singleton.2 h

theorem append (hp : Phrases ps) (hq : Phrases qs) : Phrases (ps ++ qs) :=
  List.forall_mem_append.2 ⟨hp, hq⟩

theorem cons_fixed (hq : Phrases qs) (hs : s ∈ phrases) : Phrases (.fixed s :: qs) :=
  List.forall_mem_cons.2 ⟨hs, hq⟩

/-- Two parts with a phrase in between. -/
theorem join (hp : Phrases ps) (hq : Phrases qs) (hs : s ∈ phrases) :
    Phrases (ps ++ .fixed s :: qs) :=
  hp.append (hq.cons_fixed hs)

theorem snoc_fixed (hp : Phrases ps) (hs : s ∈ phrases) : Phrases (ps ++ [.fixed s]) :=
  hp.join .nil hs

end Phrases

/-- A function has to be a phrase; other atoms are in quotes or bound. -/
def Atom.IsPhrase : Atom → Prop
  | .function name => name ∈ phrases
  | _ => True

theorem phrases_name (name : String) : Phrases [.name name] := .singleton trivial

theorem phrases_literal (s : String) : Phrases [.literal s] := .singleton trivial

theorem phrases_qualified (q : Option String) (name : String) :
    Phrases (qualifierPieces q ++ [.name name]) := by
  cases q with
  | none => exact phrases_name name
  | some q => exact (phrases_name q).join (phrases_name name) (by decide)

theorem phrases_arrows (keys : List String) : Phrases (arrows keys) := by
  fun_induction arrows keys with
  | case1 => exact .nil
  | case2 key => exact (phrases_literal key).cons_fixed (by decide)
  | case3 key keys _ ih => exact ((phrases_literal key).append ih).cons_fixed (by decide)

theorem phrases_extraction {column : List Piece} (hc : Phrases column) (keys : List String) :
    Phrases (extraction d column keys) := by
  have closed {s : String} (hs : s ∈ phrases) : Phrases [.literal (dollarPath keys), .fixed s] :=
    (phrases_literal _).snoc_fixed hs
  cases d with
  | postgres => exact hc.append (phrases_arrows keys)
  | mysql => exact (hc.join (closed (by decide)) (by decide)).cons_fixed (by decide)
  | sqlite => exact (hc.join (closed (by decide)) (by decide)).cons_fixed (by decide)

theorem Comparison.text_mem_phrases (d : Dialect) (op : Comparison) : op.text d ∈ phrases := by
  cases op <;> cases d <;> decide

namespace Expr

theorem phrases_listPieces_of {separator : String} {es : List Expr}
    (h : ∀ e ∈ es, Phrases (e.pieces d)) (hs : separator ∈ phrases) :
    Phrases (listPieces d separator es) := by
  induction es with
  | nil => exact .nil
  | cons e es ih =>
    obtain ⟨he, hes⟩ := List.forall_mem_cons.1 h
    by_cases hnil : es = []
    · subst hnil
      exact he
    · rw [listPieces_cons hnil]
      exact he.join (ih hes) hs

/-- An expression whose functions are phrases consists of phrases. -/
theorem phrases_pieces {e : Expr} (h : ∀ a ∈ e.atoms, a.IsPhrase) : Phrases (e.pieces d) := by
  have each {es : List Expr} (h : ∀ a ∈ listAtoms es, a.IsPhrase) {e : Expr} (he : e ∈ es) :
      ∀ a ∈ e.atoms, a.IsPhrase := by
    rw [listAtoms_eq] at h
    exact fun a ha => h a (List.mem_flatMap.2 ⟨e, he, ha⟩)
  induction e with
  | column c => exact phrases_qualified c.qualifier c.name
  | value v => exact .singleton trivial
  | compare left op right hl hr =>
    obtain ⟨hleft, hright⟩ := List.forall_mem_append.1 h
    exact (hl hleft).join (hr hright) (op.text_mem_phrases d)
  | call function args ih =>
    obtain ⟨hf, hargs⟩ := List.forall_mem_cons.1 h
    have args : Phrases (listPieces d ", " args) :=
      phrases_listPieces_of (fun e he => ih e he (each hargs he)) (by decide)
    exact ((args.snoc_fixed (by decide)).cons_fixed (by decide)).cons_fixed hf
  | callAll function =>
    have hf : function ∈ phrases := h (.function function) List.mem_cons_self
    exact (Phrases.nil.cons_fixed (by decide)).cons_fixed hf
  | named e label ih => exact (ih h).join (phrases_name label) (by decide)
  | textAt c keys => exact phrases_extraction (phrases_qualified c.qualifier c.name) keys
  | and es ih => exact phrases_listPieces_of (fun e he => ih e he (each h he)) (by decide)
  | or es ih => exact phrases_listPieces_of (fun e he => ih e he (each h he)) (by decide)
  | not e ih => exact ((ih h).snoc_fixed (by decide)).cons_fixed (by decide)
  | nested e ih => exact ((ih h).snoc_fixed (by decide)).cons_fixed (by decide)
  | oneOf e choices negated he ih =>
    obtain ⟨hexpr, hchoices⟩ := List.forall_mem_append.1 h
    have choices : Phrases (listPieces d ", " choices) :=
      phrases_listPieces_of (fun e he => ih e he (each hchoices he)) (by decide)
    exact (he hexpr).join (choices.snoc_fixed (by decide)) (by cases negated <;> decide)
  | between e low high he hl hh =>
    obtain ⟨h, hhigh⟩ := List.forall_mem_append.1 h
    obtain ⟨hexpr, hlow⟩ := List.forall_mem_append.1 h
    exact (he hexpr).join ((hl hlow).join (hh hhigh) (by decide)) (by decide)
  | isNull e negated ih => exact (ih h).snoc_fixed (by cases negated <;> decide)
  | all qualifier =>
    cases qualifier with
    | none => exact Phrases.nil.cons_fixed (by decide)
    | some q => exact (phrases_name q).join (Phrases.nil.cons_fixed (by decide)) (by decide)

theorem phrases_listPieces {es : List Expr} (h : ∀ a ∈ es.flatMap atoms, a.IsPhrase) :
    Phrases (listPieces d ", " es) :=
  phrases_listPieces_of
    (fun e he => phrases_pieces fun a ha => h a (List.mem_flatMap.2 ⟨e, he, ha⟩)) (by decide)

end Expr

/-! ## Statements -/

theorem phrases_labelPieces (label : Option String) : Phrases (labelPieces label) := by
  cases label with
  | none => exact .nil
  | some name => exact (phrases_name name).cons_fixed (by decide)

theorem phrases_joins {joins : List JoinClause}
    (h : ∀ a ∈ joins.flatMap fun j => j.condition.atoms, a.IsPhrase) :
    Phrases (joins.flatMap (JoinClause.pieces d)) := by
  intro p hp
  obtain ⟨j, hj, hp⟩ := List.mem_flatMap.1 hp
  have condition : Phrases (j.condition.pieces d) :=
    Expr.phrases_pieces fun a ha => h a (List.mem_flatMap.2 ⟨j, hj, ha⟩)
  have table : Phrases (j.table.pieces ++ labelPieces j.label) :=
    (phrases_qualified j.table.space j.table.name).append (phrases_labelPieces j.label)
  exact (table.join condition (by decide)).cons_fixed (by cases j.kind <;> decide) p hp

theorem phrases_clausePieces {keyword : String} {e : Option Expr}
    (h : ∀ a ∈ e.toList.flatMap Expr.atoms, a.IsPhrase)
    (hk : keyword ∈ phrases) : Phrases (clausePieces d keyword e) := by
  cases e with
  | none => exact .nil
  | some e => exact (Expr.phrases_pieces (by simpa using h)).cons_fixed hk

theorem phrases_orderPieces {os : List OrderItem}
    (h : ∀ a ∈ os.flatMap fun o => o.expr.atoms, a.IsPhrase) : Phrases (orderPieces d os) := by
  have item {o : OrderItem} (h : ∀ a ∈ o.expr.atoms, a.IsPhrase) : Phrases (o.pieces d) := by
    have expr : Phrases (o.expr.pieces d) := Expr.phrases_pieces h
    rw [OrderItem.pieces]
    split
    · exact expr.snoc_fixed (by decide)
    · exact expr.snoc_fixed (by decide)
    · exact expr.append .nil
  fun_induction orderPieces d os with
  | case1 => exact .nil
  | case2 o => exact item (by simpa using h)
  | case3 o os _ ih =>
    rw [List.flatMap_cons, List.forall_mem_append] at h
    exact (item h.1).join (ih h.2) (by decide)

/-- What a statement says before the clauses of its bounds. -/
def Select.front (d : Dialect) (s : Select) : List Piece :=
  .fixed "select " :: (columnPieces d s.columns ++ fromPieces d s.source ++
    s.joins.flatMap (JoinClause.pieces d) ++ clausePieces d " where " s.condition ++
    listClausePieces d " group by " s.groupBy ++ orderClausePieces d s.orderBy)

theorem Select.pieces_eq_front (s : Select) : s.pieces d =
    s.front d ++ clausePieces d " limit " s.limit ++ clausePieces d " offset " s.offset := by
  obtain ⟨columns, source, joins, condition, groupBy, orderBy, limit, offset⟩ := s
  rw [Select.pieces, Select.front]
  simp only [List.append_assoc, List.cons_append]

/-- The front of a statement consists of phrases if the source of its rows does. -/
theorem Select.phrases_front {s : Select} (h : ∀ a ∈ s.atoms, a.IsPhrase)
    (hsource : Phrases (fromPieces d s.source)) : Phrases (s.front d) := by
  obtain ⟨columns, source, joins, condition, groupBy, orderBy, limit, offset⟩ := s
  simp only [Select.atoms, List.forall_mem_append] at h
  obtain ⟨⟨⟨⟨⟨⟨⟨hColumns, -⟩, hJoins⟩, hCondition⟩, hGroup⟩, hOrder⟩, -⟩, -⟩ := h
  have columns : Phrases (columnPieces d columns) := by
    cases columns with
    | nil => exact Phrases.nil.cons_fixed (by decide)
    | cons e es => exact Expr.phrases_listPieces hColumns
  have group : Phrases (listClausePieces d " group by " groupBy) := by
    cases groupBy with
    | nil => exact .nil
    | cons e es => exact (Expr.phrases_listPieces hGroup).cons_fixed (by decide)
  have order : Phrases (orderClausePieces d orderBy) := by
    cases orderBy with
    | nil => exact .nil
    | cons o os => exact (phrases_orderPieces hOrder).cons_fixed (by decide)
  exact (((((columns.append hsource).append (phrases_joins hJoins)).append
    (phrases_clausePieces hCondition (by decide))).append group).append order).cons_fixed
      (by decide)

theorem phrases_table (t : Table) (label : Option String) :
    Phrases (fromPieces d (some (.table t label))) :=
  ((phrases_qualified t.space t.name).append (phrases_labelPieces label)).cons_fixed (by decide)

end FilterSql.Sql
