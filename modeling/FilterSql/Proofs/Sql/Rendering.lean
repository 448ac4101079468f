import FilterSql.Proofs.Sql.Reading

/-!
# Statements are readable

The pieces of expressions and statements are readable whatever names, keys and values they hold, as
long as the functions that they call are known (`Expr.readable_pieces`, `Select.readable_pieces`).
The delicate part is the path in a literal of MySQL, where a backslash escapes: a key has its
backslashes and quotes escaped, so that each backslash comes with a character that it escapes
(`enclosed_dollarPath`).
-/

namespace FilterSql.Sql

/-! ## Paths in literals -/

theorem doubled_flatMap {α : Type} (quote : Char) (f : α → List Char) (xs : List α) :
    doubled quote (xs.flatMap f) = xs.flatMap fun x => doubled quote (f x) := List.flatMap_assoc

/-- A character that is no backslash may stand in a literal. -/
theorem enclosed_doubled_char {escapes : Bool} {c : Char} (h : c ≠ '\\') :
    Enclosed '\'' escapes (doubled '\'' [c]) := by
  simp only [doubled, List.flatMap_cons, List.flatMap_nil, List.append_nil]
  split_ifs with hq
  · subst hq
    exact enclosed_quote
  · exact enclosed_char hq (by simp [h])

theorem enclosed_memberChar (c : Char) : Enclosed '\'' true (doubled '\'' (memberChar c)) := by
  unfold memberChar
  split_ifs with h
  · have hc : c ≠ '\'' := by rcases h with rfl | rfl <;> decide
    have escaped : Enclosed '\'' true ['\\', c] := enclosed_escaped (by decide) c
    simpa [doubled, hc] using escaped
  · exact enclosed_doubled_char fun hc => h (.inl hc)

theorem ne_backslash_of_isPlainMember {key : List Char} (h : isPlainMember key) {c : Char}
    (hc : c ∈ key) : c ≠ '\\' := by
  have plain : c.isAlphanum ∨ c = '_' := by
    cases key with
    | nil => simp at hc
    | cons k rest =>
      simp only [isPlainMember, Bool.and_eq_true, Bool.or_eq_true, beq_iff_eq,
        List.all_eq_true] at h
      rcases List.mem_cons.1 hc with rfl | hc
      · exact h.1.imp_left fun ha => by simp [Char.isAlphanum, ha]
      · exact h.2 c hc
  rintro rfl
  exact absurd plain (by decide)

theorem enclosed_memberChars (key : List Char) :
    Enclosed '\'' true (doubled '\'' (memberChars key)) := by
  unfold memberChars
  split_ifs with h
  · rw [← List.flatMap_singleton' key, doubled_flatMap]
    exact .flatMap fun c hc => enclosed_doubled_char (ne_backslash_of_isPlainMember h hc)
  · rw [← List.singleton_append, doubled_append, doubled_append, doubled_flatMap]
    have quote : Enclosed '\'' true (doubled '\'' ['"']) := enclosed_doubled_char (by decide)
    exact quote.append ((Enclosed.flatMap fun c _ => enclosed_memberChar c).append quote)

/-- A path stays inside its literal, also where a backslash escapes. -/
theorem enclosed_dollarPath (escapes : Bool) (keys : List String) :
    Enclosed '\'' escapes (doubled '\'' (dollarPath keys).toList) := by
  cases escapes with
  | false => exact enclosed_doubled _ _
  | true =>
    rw [dollarPath, String.toList_ofList, ← List.singleton_append, doubled_append, doubled_flatMap]
    refine (enclosed_doubled_char (by decide)).append (.flatMap fun key _ => ?_)
    rw [← List.singleton_append, doubled_append]
    exact (enclosed_doubled_char (by decide)).append (enclosed_memberChars key.toList)

/-! ## Expressions -/

variable {d : Dialect}

theorem Comparison.text_mem_vocabulary (d : Dialect) (op : Comparison) :
    op.text d ∈ vocabulary := by
  cases op <;> cases d <;> decide

theorem readable_name (name : String) : Readable d [.name name] := .singleton trivial

theorem readable_qualified (q : Option String) (name : String) :
    Readable d (qualifierPieces q ++ [.name name]) := by
  cases q with
  | none => exact readable_name name
  | some q => exact (readable_name q).join (readable_name name) (by decide)

theorem readable_arrows {ps : List Piece} (hp : Readable .postgres ps) (keys : List String) :
    Readable .postgres (ps ++ arrows keys) := by
  have literal (key : String) : Readable .postgres [.literal key] :=
    .singleton (enclosed_doubled _ _)
  fun_induction arrows keys generalizing ps with
  | case1 => simpa using hp
  | case2 key => exact hp.join (literal key) (by decide)
  | case3 key keys _ ih =>
    have step : Readable .postgres (ps ++ [.fixed "->", .literal key]) :=
      hp.join (literal key) (by decide)
    simpa using ih step

theorem readable_extraction {column : List Piece} (hc : Readable d column) (keys : List String) :
    Readable d (extraction d column keys) := by
  have path : Readable d [.literal (dollarPath keys)] := .singleton (enclosed_dollarPath _ _)
  have closed {s : String} (hs : s ∈ vocabulary) :
      Readable d [.literal (dollarPath keys), .fixed s] := path.snoc_fixed hs
  cases d with
  | postgres => exact readable_arrows hc keys
  | mysql => exact (hc.join (closed (by decide)) (by decide)).cons_fixed (by decide)
  | sqlite => exact (hc.join (closed (by decide)) (by decide)).cons_fixed (by decide)

/-- A function has to be known; other atoms are in quotes or bound. -/
def Atom.Known : Atom → Prop
  | .function name => name ∈ vocabulary
  | _ => True

namespace Expr

/-- All functions of an expression are known. -/
def Known (e : Expr) : Prop := ∀ a ∈ e.atoms, a.Known

theorem known_of_mem {es : List Expr} (h : ∀ a ∈ listAtoms es, a.Known) {e : Expr} (he : e ∈ es) :
    e.Known := by
  rw [listAtoms_eq] at h
  exact fun a ha => h a (List.mem_flatMap.2 ⟨e, he, ha⟩)

theorem readable_listPieces_of {separator : String} {es : List Expr}
    (h : ∀ e ∈ es, Readable d (e.pieces d)) (hs : separator ∈ vocabulary) :
    Readable d (listPieces d separator es) := by
  induction es with
  | nil => exact .nil
  | cons e es ih =>
    have he := h e (by simp)
    have ih := ih fun e he => h e (by simp [he])
    by_cases hes : es = []
    · subst hes
      exact he
    · rw [listPieces_cons hes]
      exact he.join ih hs

/-- The pieces of an expression are readable. -/
theorem readable_pieces {e : Expr} (h : e.Known) : Readable d (e.pieces d) := by
  induction e with
  | column c => exact readable_qualified c.qualifier c.name
  | value v => exact .singleton trivial
  | compare left op right hl hr =>
    simp only [Known, atoms, List.mem_append, or_imp, forall_and] at h
    exact (hl h.1).join (hr h.2) (op.text_mem_vocabulary d)
  | call function args ih =>
    simp only [Known, atoms, List.mem_cons, forall_eq_or_imp] at h
    have args : Readable d (listPieces d ", " args) :=
      readable_listPieces_of (fun e he => ih e he (known_of_mem h.2 he)) (by decide)
    exact ((args.snoc_fixed (by decide)).cons_fixed (by decide)).cons_fixed h.1
  | callAll function =>
    have hf : function ∈ vocabulary := h (.function function) (by simp [atoms])
    exact (Readable.nil.cons_fixed (by decide)).cons_fixed hf
  | named e label ih => exact (ih h).join (readable_name label) (by decide)
  | textAt c keys => exact readable_extraction (readable_qualified c.qualifier c.name) keys
  | and es ih =>
    exact readable_listPieces_of (fun e he => ih e he (known_of_mem h he)) (by decide)
  | or es ih =>
    exact readable_listPieces_of (fun e he => ih e he (known_of_mem h he)) (by decide)
  | not e ih => exact ((ih h).snoc_fixed (by decide)).cons_fixed (by decide)
  | nested e ih => exact ((ih h).snoc_fixed (by decide)).cons_fixed (by decide)
  | oneOf e choices negated he ih =>
    simp only [Known, atoms, List.mem_append, or_imp, forall_and] at h
    have choices : Readable d (listPieces d ", " choices) :=
      readable_listPieces_of (fun e he => ih e he (known_of_mem h.2 he)) (by decide)
    exact (he h.1).join (choices.snoc_fixed (by decide)) (by cases negated <;> decide)
  | between e low high he hl hh =>
    simp only [Known, atoms, List.mem_append, or_imp, forall_and] at h
    exact (he h.1.1).join ((hl h.1.2).join (hh h.2) (by decide)) (by decide)
  | isNull e negated ih => exact (ih h).snoc_fixed (by cases negated <;> decide)
  | all qualifier =>
    cases qualifier with
    | none => exact Readable.nil.cons_fixed (by decide)
    | some q => exact (readable_name q).join (Readable.nil.cons_fixed (by decide)) (by decide)

theorem readable_listPieces {es : List Expr} (h : ∀ e ∈ es, e.Known) :
    Readable d (listPieces d ", " es) :=
  readable_listPieces_of (fun e he => readable_pieces (h e he)) (by decide)

end Expr

/-! ## Statements -/

theorem readable_labelPieces (label : Option String) : Readable d (labelPieces label) := by
  cases label with
  | none => exact .nil
  | some name => exact (readable_name name).cons_fixed (by decide)

theorem opens_labelPieces (label : Option String) : Opens (labelPieces label) := by
  cases label with
  | none => exact .nil
  | some name => exact .cons_fixed _ _

/-- A table and its label. -/
theorem readable_table (t : Table) (label : Option String) :
    Readable d (t.pieces ++ labelPieces label) :=
  (readable_qualified t.space t.name).append (readable_labelPieces label) (opens_labelPieces label)

theorem JoinClause.readable_pieces {j : JoinClause} (h : j.condition.Known) :
    Readable d (j.pieces d) := by
  have condition : Readable d (j.condition.pieces d) := Expr.readable_pieces h
  have both : Readable d (j.table.pieces ++ labelPieces j.label ++
      .fixed " on " :: j.condition.pieces d) :=
    (readable_table j.table j.label).join condition (by decide)
  exact both.cons_fixed (by cases j.kind <;> decide)

theorem readable_joins {joins : List JoinClause} (h : ∀ j ∈ joins, j.condition.Known) :
    Readable d (joins.flatMap (JoinClause.pieces d)) ∧
      Opens (joins.flatMap (JoinClause.pieces d)) := by
  induction joins with
  | nil => exact ⟨.nil, .nil⟩
  | cons j joins ih =>
    obtain ⟨hr, ho⟩ := ih fun j hj => h j (by simp [hj])
    rw [List.flatMap_cons]
    exact ⟨(JoinClause.readable_pieces (h j (by simp))).append hr ho, .cons_fixed _ _⟩

theorem readable_clausePieces {keyword : String} {e : Option Expr} (h : ∀ x ∈ e, x.Known)
    (hk : keyword ∈ vocabulary) : Readable d (clausePieces d keyword e) := by
  cases e with
  | none => exact .nil
  | some e => exact (Expr.readable_pieces (h e rfl)).cons_fixed hk

theorem opens_clausePieces (keyword : String) (e : Option Expr) :
    Opens (clausePieces d keyword e) := by
  cases e with
  | none => exact .nil
  | some e => exact .cons_fixed _ _

theorem readable_listClausePieces {keyword : String} {es : List Expr} (h : ∀ e ∈ es, e.Known)
    (hk : keyword ∈ vocabulary) : Readable d (listClausePieces d keyword es) := by
  cases es with
  | nil => exact .nil
  | cons e es => exact (Expr.readable_listPieces h).cons_fixed hk

theorem opens_listClausePieces (keyword : String) (es : List Expr) :
    Opens (listClausePieces d keyword es) := by
  cases es with
  | nil => exact .nil
  | cons e es => exact .cons_fixed _ _

theorem OrderItem.readable_pieces {o : OrderItem} (h : o.expr.Known) : Readable d (o.pieces d) := by
  have he : Readable d (o.expr.pieces d) := Expr.readable_pieces h
  unfold OrderItem.pieces
  split
  · exact he.snoc_fixed (by decide)
  · exact he.snoc_fixed (by decide)
  · simpa using he

theorem readable_orderPieces {os : List OrderItem} (h : ∀ o ∈ os, o.expr.Known) :
    Readable d (orderPieces d os) := by
  fun_induction orderPieces d os with
  | case1 => exact .nil
  | case2 o => exact OrderItem.readable_pieces (h o (by simp))
  | case3 o os _ ih =>
    have rest := ih fun o ho => h o (by simp [ho])
    exact (OrderItem.readable_pieces (h o (by simp))).join rest (by decide)

theorem readable_orderClausePieces {os : List OrderItem} (h : ∀ o ∈ os, o.expr.Known) :
    Readable d (orderClausePieces d os) := by
  cases os with
  | nil => exact .nil
  | cons o os => exact (readable_orderPieces h).cons_fixed (by decide)

theorem opens_orderClausePieces (os : List OrderItem) : Opens (orderClausePieces d os) := by
  cases os with
  | nil => exact .nil
  | cons o os => exact .cons_fixed _ _

theorem readable_columnPieces {es : List Expr} (h : ∀ e ∈ es, e.Known) :
    Readable d (columnPieces d es) := by
  cases es with
  | nil => exact Readable.nil.cons_fixed (by decide)
  | cons e es => exact Expr.readable_listPieces h

theorem opens_fromPieces (source : Option (Source Select)) : Opens (fromPieces d source) := by
  cases source with
  | none => simpa [fromPieces] using Opens.nil
  | some s => simpa [fromPieces] using Opens.cons_fixed _ _

theorem known_of_mem_flatMap {α : Type} {f : α → Expr} {xs : List α}
    (h : ∀ a ∈ xs.flatMap fun x => (f x).atoms, a.Known) {x : α} (hx : x ∈ xs) : (f x).Known :=
  fun a ha => h a (List.mem_flatMap.2 ⟨x, hx, ha⟩)

mutual

/-- The pieces of a statement are readable. -/
theorem Select.readable_pieces : ∀ s : Select, (∀ a ∈ s.atoms, a.Known) → Readable d (s.pieces d)
  | ⟨columns, source, joins, condition, groupBy, orderBy, limit, offset⟩, h => by
    simp only [Select.atoms, List.mem_append, or_imp, forall_and] at h
    obtain ⟨⟨⟨⟨⟨⟨⟨hColumns, hFrom⟩, hJoins⟩, hCondition⟩, hGroup⟩, hOrder⟩, hLimit⟩, hOffset⟩ := h
    have optional {e : Option Expr} (h : ∀ a ∈ e.toList.flatMap Expr.atoms, a.Known) :
        ∀ x ∈ e, x.Known := fun x hx =>
      known_of_mem_flatMap (f := id) h (Option.mem_toList.2 hx)
    obtain ⟨joinsReadable, joinsOpen⟩ := readable_joins (d := d) fun j hj =>
      known_of_mem_flatMap (f := JoinClause.condition) hJoins hj
    have columns : Readable d (columnPieces d columns) :=
      readable_columnPieces fun e he => known_of_mem_flatMap (f := id) hColumns he
    have group : Readable d (listClausePieces d " group by " groupBy) :=
      readable_listClausePieces (fun e he => known_of_mem_flatMap (f := id) hGroup he) (by decide)
    have order : Readable d (orderClausePieces d orderBy) :=
      readable_orderClausePieces fun o ho => known_of_mem_flatMap (f := OrderItem.expr) hOrder ho
    rw [Select.pieces]
    exact (((((((columns.append (readable_fromPieces source hFrom) (opens_fromPieces source)).append
      joinsReadable joinsOpen).append
      (readable_clausePieces (optional hCondition) (by decide)) (opens_clausePieces _ _)).append
      group (opens_listClausePieces _ _)).append
      order (opens_orderClausePieces _)).append
      (readable_clausePieces (optional hLimit) (by decide)) (opens_clausePieces _ _)).append
      (readable_clausePieces (optional hOffset) (by decide)) (opens_clausePieces _ _)).cons_fixed
        (by decide)

theorem readable_fromPieces : ∀ source : Option (Source Select),
    (∀ a ∈ fromAtoms source, a.Known) → Readable d (fromPieces d source)
  | none, _ => .nil
  | some s, h => (readable_sourcePieces s h).cons_fixed (by decide)

theorem readable_sourcePieces : ∀ s : Source Select,
    (∀ a ∈ sourceAtoms s, a.Known) → Readable d (sourcePieces d s)
  | .table t label, _ => readable_table t label
  | .query q label, h => by
    have rest : Readable d (.fixed ")" :: labelPieces label) :=
      (readable_labelPieces label).cons_fixed (by decide)
    exact ((Select.readable_pieces q h).append rest (.cons_fixed _ _)).cons_fixed (by decide)

end

/-- The text of a statement has the tokens of its pieces. -/
theorem Select.lex_render {s : Select} (h : ∀ a ∈ s.atoms, a.Known) (d : Dialect) :
    lex d (s.render d).text.toList = some (tokens d 0 (s.pieces d)) := by
  rw [Select.render, statementOf, String.toList_ofList]
  exact lex_assemble (Select.readable_pieces s h) 0

end FilterSql.Sql
