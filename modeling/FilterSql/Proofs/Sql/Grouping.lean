import FilterSql.Proofs.Sql.Precedence
import FilterSql.Proofs.Sql.Rendering

/-!
# Expressions whose text reads as they are

Conjunctions and disjunctions are written without parentheses.  The text of an expression reads as
the expression if it is `Grouped`: disjunctions stand in parentheses of their own, nothing is empty,
and what is compared are columns, texts in documents and bound values (`Expr.Grouped.reads_back`).

The proof goes over the layout of an expression (`Expr.layout`), the sequence of comparisons,
connectives and parentheses in its text.  The words of the text have these items, because words of a
comparison are `Leading` or `Inert` and so never taken for a connective (`Expr.Grouped.laidOut`).
What the items group to is a matter of the layout alone (`Expr.Grouped.factor`).
-/

namespace FilterSql.Sql

/-! ## Words of comparisons -/

/-- Words that a comparison goes on with, wherever in it they stand. -/
def Inert (us : List Word) : Prop := ∀ before depth range ws,
  itemsWithin before depth range (us ++ ws) = itemsWithin (before ++ us) depth range ws

/-- Words that a comparison begins with. -/
def Leading (us : List Word) : Prop := ∀ ws, items (us ++ ws) = itemsWithin us 0 false ws

/-- Words that end a comparison before them. -/
def Stops (ws : List Word) : Prop :=
  ∀ w ∈ ws.head?, w.role = .closing ∨ w.role = .and ∨ w.role = .or

theorem Inert.append {us vs : List Word} (hu : Inert us) (hv : Inert vs) : Inert (us ++ vs) := by
  intro before depth range ws
  rw [List.append_assoc, hu, hv, List.append_assoc]

theorem inert_word {w : Word} (h : w.role = .other ∨ w.role = .not) : Inert [w] := by
  intro before depth range ws
  rw [List.singleton_append, itemsWithin.eq_def]
  rcases h with h | h <;> simp only [h]

theorem inert_all {us : List Word} (h : ∀ w ∈ us, w.role = .other ∨ w.role = .not) : Inert us := by
  induction us with
  | nil => exact fun _ _ _ _ => by simp
  | cons w us ih => exact (inert_word (h w (by simp))).append (ih fun w hw => h w (by simp [hw]))

/-- Words in parentheses belong to a comparison. -/
theorem Inert.parenthesized {us : List Word} (h : Inert us) :
    Inert (.mark '(' :: (us ++ [.mark ')'])) := by
  intro before depth range ws
  have opened : itemsWithin before depth range (.mark '(' :: (us ++ (.mark ')' :: ws))) =
      itemsWithin (before ++ [.mark '(']) (depth + 1) range (us ++ (.mark ')' :: ws)) := by
    cases depth <;> cases range <;> rfl
  have closed (before : List Word) : itemsWithin before (depth + 1) range (.mark ')' :: ws) =
      itemsWithin (before ++ [.mark ')']) depth range ws := by
    cases range <;> rfl
  simp only [List.cons_append, List.append_assoc, List.nil_append]
  rw [opened, h, closed]
  simp

theorem leading_word {w : Word} (h : w.role = .other) : Leading [w] := by
  intro ws
  rw [List.singleton_append, items.eq_def]
  simp only [h]

theorem Leading.append {us vs : List Word} (hu : Leading us) (hv : Inert vs) :
    Leading (us ++ vs) := by
  intro ws
  rw [List.append_assoc, hu, hv]

/-- The word `and` between two bounds does not end the comparison, which waits for it. -/
theorem Leading.between {us low high : List Word} (hu : Leading us) (hl : Inert low)
    (hh : Inert high) :
    Leading (us ++ ([.run "between".toList] ++ (low ++ ([.run "and".toList] ++ high)))) := by
  intro ws
  have opened (before ws : List Word) :
      itemsWithin before 0 false ([.run "between".toList] ++ ws) =
        itemsWithin (before ++ [.run "between".toList]) 0 true ws := rfl
  have second (before ws : List Word) : itemsWithin before 0 true ([.run "and".toList] ++ ws) =
      itemsWithin (before ++ [.run "and".toList]) 0 false ws := rfl
  simp only [List.append_assoc]
  rw [hu, opened, hl, second, hh]
  simp only [List.append_assoc]

/-- A comparison ends where something stops it. -/
theorem Leading.items_append {us ws : List Word} (hu : Leading us) (hw : Stops ws) :
    items (us ++ ws) = .comparison us :: items ws := by
  rw [hu]
  cases ws with
  | nil => rfl
  | cons w ws =>
    rw [itemsWithin.eq_def, items.eq_def]
    rcases hw w (by simp) with h | h | h <;> simp only [h]

/-! ## Grouped expressions -/

namespace Expr

/-- What comparisons compare: columns, texts in documents, and bound values. -/
inductive IsOperand : Expr → Prop
  | column (c : Column) : IsOperand (.column c)
  | textAt (c : Column) (keys : List String) : IsOperand (.textAt c keys)
  | value (v : Value) : IsOperand (.value v)

/-- Expressions that need no more parentheses than they have: disjunctions stand in parentheses, no
conjunction, disjunction or list is empty, and comparisons are between operands. -/
inductive Grouped : Expr → Prop
  | compare {left right : Expr} (op : Comparison) (hl : left.IsOperand) (hr : right.IsOperand) :
    Grouped (.compare left op right)
  | isNull {e : Expr} (negated : Bool) (he : e.IsOperand) : Grouped (.isNull e negated)
  | oneOf {e : Expr} {choices : List Expr} (negated : Bool) (he : e.IsOperand)
    (hn : choices ≠ []) (hc : ∀ c ∈ choices, c.IsOperand) : Grouped (.oneOf e choices negated)
  | between {e low high : Expr} (he : e.IsOperand) (hl : low.IsOperand) (hh : high.IsOperand) :
    Grouped (.between e low high)
  | not {e : Expr} (he : Grouped e) : Grouped (.not e)
  | nested {e : Expr} (he : Grouped e) : Grouped (.nested e)
  | and {es : List Expr} (hn : es ≠ []) (h : ∀ e ∈ es, Grouped e) : Grouped (.and es)
  | nestedOr {es : List Expr} (hn : es ≠ []) (h : ∀ e ∈ es, Grouped e) : Grouped (.nested (.or es))

mutual

/-- The items in the text of an expression.  A comparison comes with the number of values bound
before it, which its placeholders show. -/
def layout (index : Nat) : Expr → List (Item (Nat × Expr))
  | .and es => layouts .and index es
  | .or es => layouts .or index es
  | .not e => .not :: .opening :: (e.layout index ++ [.closing])
  | .nested e => .opening :: (e.layout index ++ [.closing])
  | e => [.comparison (index, e)]

/-- The items of expressions with a connective between them. -/
def layouts (connective : Item (Nat × Expr)) (index : Nat) : List Expr → List (Item (Nat × Expr))
  | [] => []
  | [e] => e.layout index
  | e :: es => e.layout index ++ connective :: layouts connective (index + e.values.length) es

end

theorem layouts_cons {connective : Item (Nat × Expr)} {i : Nat} {e : Expr} {es : List Expr}
    (h : es ≠ []) : layouts connective i (e :: es) =
      e.layout i ++ connective :: layouts connective (i + e.values.length) es := by
  cases es with
  | nil => exact absurd rfl h
  | cons e' es => rfl

/-- The words of an expression after `index` bound values. -/
def wordsAt (d : Dialect) : Nat × Expr → List Word := fun (index, e) => wordsOf d index (e.pieces d)

variable {d : Dialect}

/-! ### Words of operands -/

theorem leading_of_role {us : List Word} (hn : us ≠ []) (h : ∀ w ∈ us, w.role = .other) :
    Leading us := by
  cases us with
  | nil => exact absurd rfl hn
  | cons w us =>
    exact (leading_word (h w (by simp))).append (inert_all fun w hw => .inl (h w (by simp [hw])))

theorem wordsOf_column (d : Dialect) (i : Nat) (c : Column) :
    wordsOf d i c.pieces ≠ [] ∧ (∀ w ∈ wordsOf d i c.pieces, w.role = .other) ∧
      endsRun (tokens d i c.pieces) = false := by
  obtain ⟨q, name⟩ := c
  have point : ".".toList = ['.'] := rfl
  cases q with
  | none =>
    simp [Column.pieces, qualifierPieces, wordsOf, tokens, tokenWords, endsRun, Word.role]
  | some q =>
    simp [Column.pieces, qualifierPieces, wordsOf, tokens, tokenWords, endsRun, Word.role, point,
      isMark, startsRun, attach]

theorem role_arrows {keys : List String} {i : Nat} {w : Word}
    (h : w ∈ wordsOf d i (arrows keys)) : w.role = .other := by
  fun_induction arrows keys with
  | case1 => exact absurd h List.not_mem_nil
  | case2 key =>
    have both : wordsOf d i [.fixed "->>", .literal key] =
        [.run ['-', '>', '>'], .literal (doubled '\'' key.toList)] := rfl
    rw [both] at h
    obtain rfl | rfl : w = _ ∨ w = _ := by simpa using h
    · rfl
    · rfl
  | case3 key keys _ ih =>
    have step : wordsOf d i (.fixed "->" :: .literal key :: arrows keys) =
        .run ['-', '>'] :: .literal (doubled '\'' key.toList) :: wordsOf d i (arrows keys) := rfl
    rw [step, List.mem_cons, List.mem_cons] at h
    obtain rfl | rfl | h := h
    · rfl
    · rfl
    · exact ih h

/-- The words of the arguments of a function that takes a text out of a document. -/
theorem wordsOf_arguments {s : String} (d : Dialect) (i : Nat) (c : Column) (path : String)
    (hs : Loose s) : wordsOf d i (c.pieces ++ [.fixed ", ", .literal path, .fixed s]) =
      wordsOf d i c.pieces ++
        ([.mark ',', .literal (doubled '\'' path.toList)] ++ fixedWords s) := by
  have comma : fixedWords ", " = [.mark ','] := by decide
  have rest : wordsOf d i [.literal path, .fixed s] =
      .literal (doubled '\'' path.toList) :: fixedWords s := by
    simpa [wordsOf, tokens, tokenWords] using wordsOf_fixed (d := d) i [] hs.2
  rw [wordsOf_join, comma, Column.bindings_pieces, List.length_nil, Nat.add_zero, rest]
  rfl

/-- A function with its arguments may begin a comparison or go on with it. -/
theorem words_call {w : Word} (hw : w.role = .other) {us : List Word} (hu : Inert us) :
    Leading (w :: .mark '(' :: (us ++ [.mark ')'])) ∧
      Inert (w :: .mark '(' :: (us ++ [.mark ')'])) :=
  ⟨(leading_word hw).append hu.parenthesized, (inert_word (.inl hw)).append hu.parenthesized⟩

/-- The words of an operand may begin a comparison or go on with it. -/
theorem IsOperand.words {e : Expr} (h : e.IsOperand) (i : Nat) :
    Leading (wordsOf d i (e.pieces d)) ∧ Inert (wordsOf d i (e.pieces d)) := by
  cases h with
  | column c =>
    obtain ⟨hn, hc, -⟩ := wordsOf_column d i c
    exact ⟨leading_of_role hn hc, inert_all fun w hw => .inl (hc w hw)⟩
  | value v =>
    have role : (Word.run (placeholder d i)).role = .other := by cases d <;> rfl
    have one : wordsOf d i (Expr.pieces d (.value v)) = [.run (placeholder d i)] := by
      rw [pieces, wordsOf, tokens, tokens, List.append_nil, tokenWords_placeholder]
    rw [one]
    exact ⟨leading_word role, inert_word (.inl role)⟩
  | textAt c keys =>
    obtain ⟨hn, hc, hends⟩ := wordsOf_column d i c
    have column : Inert (wordsOf d i c.pieces) := inert_all fun w hw => .inl (hc w hw)
    have args : Inert (wordsOf d i c.pieces ++
        [.mark ',', .literal (doubled '\'' (dollarPath keys).toList)]) :=
      column.append (inert_all fun w hw => .inl (by
        obtain rfl | rfl : w = _ ∨ w = _ := by simpa using hw
        · rfl
        · rfl))
    rw [pieces]
    cases d with
    | postgres =>
      rw [extraction, wordsOf_append (.inl hends)]
      have arrows : Inert (wordsOf .postgres (i + (bindings c.pieces).length) (arrows keys)) :=
        inert_all fun w hw => .inl (role_arrows hw)
      exact ⟨(leading_of_role hn hc).append arrows, column.append arrows⟩
    | mysql =>
      have functions : fixedWords "JSON_UNQUOTE(JSON_EXTRACT(" =
          [.run "JSON_UNQUOTE".toList, .mark '(', .run "JSON_EXTRACT".toList, .mark '('] := by
        decide
      have closed : fixedWords "))" = [.mark ')', .mark ')'] := by decide
      have loose : Loose "))" := by decide
      rw [extraction, List.cons_append, wordsOf_fixed, wordsOf_arguments _ _ _ _ loose, functions,
        closed]
      have inner := (words_call (w := .run "JSON_EXTRACT".toList) (by decide) args).2
      have outer := words_call (w := .run "JSON_UNQUOTE".toList) (by decide) inner
      simpa using outer
    | sqlite =>
      have function : fixedWords "json_extract(" = [.run "json_extract".toList, .mark '('] := by
        decide
      have closed : fixedWords ")" = [.mark ')'] := by decide
      have loose : Loose ")" := by decide
      rw [extraction, List.cons_append, wordsOf_fixed, wordsOf_arguments _ _ _ _ loose, function,
        closed]
      simpa using words_call (w := .run "json_extract".toList) (by decide) args

/-! ### From words to items -/

theorem inert_choices {es : List Expr} (h : ∀ e ∈ es, e.IsOperand) (i : Nat) :
    Inert (wordsOf d i (listPieces d ", " es)) := by
  have comma : fixedWords ", " = [.mark ','] := by decide
  induction es generalizing i with
  | nil => exact inert_all (by simp [wordsOf, listPieces, tokens, tokenWords])
  | cons e es ih =>
    have he := (IsOperand.words (d := d) (h e (by simp)) i).2
    rcases eq_or_ne es [] with rfl | hes
    · exact he
    · rw [listPieces_cons hes, wordsOf_join, comma]
      exact he.append ((inert_word (.inl rfl)).append (ih (fun e he => h e (by simp [he])) _))

theorem words_comparison (d : Dialect) (op : Comparison) :
    Loose (op.text d) ∧ Inert (fixedWords (op.text d)) := by
  have check : (decide (Loose (op.text d)) && (fixedWords (op.text d)).all fun w =>
      w.role == .other || w.role == .not) = true := by
    cases op <;> cases d <;> decide
  rw [Bool.and_eq_true, decide_eq_true_eq, List.all_eq_true] at check
  exact ⟨check.1, inert_all fun w hw => by simpa using check.2 w hw⟩

/-- Is the expression neither a connective nor in parentheses? -/
def IsComparison : Expr → Prop
  | .and _ | .or _ | .not _ | .nested _ => False
  | _ => True

/-- A comparison is one, to its end. -/
theorem Grouped.leading {e : Expr} (h : e.Grouped) (atomic : e.IsComparison) (i : Nat) :
    Leading (wordsOf d i (e.pieces d)) := by
  cases h with
  | not | nested | and | nestedOr => exact atomic.elim
  | compare op hl hr =>
    obtain ⟨loose, inert⟩ := words_comparison d op
    rw [pieces, wordsOf_join _ _ _ loose]
    exact (hl.words i).1.append (inert.append (hr.words _).2)
  | isNull negated he =>
    have null : StartsLoose (if negated then " is not null" else " is null") ∧
        ∀ w ∈ fixedWords (if negated then " is not null" else " is null"),
          w.role = .other ∨ w.role = .not := by
      cases negated <;> decide
    rw [pieces, wordsOf_snoc _ _ null.1]
    exact (he.words i).1.append (inert_all null.2)
  | oneOf negated he hn hc =>
    have closed : fixedWords ")" = [.mark ')'] := by decide
    obtain ⟨ws, loose, opened, inert⟩ : ∃ ws, Loose (if negated then " not in (" else " in (") ∧
        fixedWords (if negated then " not in (" else " in (") = ws ++ [.mark '('] ∧
        ∀ w ∈ ws, w.role = .other ∨ w.role = .not := by
      cases negated with
      | false => exact ⟨[.run "in".toList], by decide⟩
      | true => exact ⟨[.run "not".toList, .run "in".toList], by decide⟩
    rw [pieces, wordsOf_join _ _ _ loose, wordsOf_snoc, opened, closed]
    have whole (j : Nat) := (he.words (d := d) i).1.append
      ((inert_all inert).append (inert_choices (d := d) hc j).parenthesized)
    simpa using whole _
  | between he hl hh =>
    have range : fixedWords " between " = [.run "between".toList] := by decide
    have both : fixedWords " and " = [.run "and".toList] := by decide
    rw [pieces, wordsOf_join, wordsOf_join, range, both]
    exact (he.words i).1.between (hl.words _).2 (hh.words _).2

/-- The words of an expression have the items of its layout, if something stops it. -/
def LaidOut (d : Dialect) (e : Expr) : Prop := ∀ i ws, Stops ws →
  items (wordsOf d i (e.pieces d) ++ ws) = (e.layout i).map (Item.map (wordsAt d)) ++ items ws

theorem items_listPieces {separator : String} {w : Word} {connective : Item (Nat × Expr)}
    (loose : Loose separator) (hw : fixedWords separator = [w]) (stops : ∀ ws, Stops (w :: ws))
    (hi : ∀ ws, items (w :: ws) = connective.map (wordsAt d) :: items ws) {es : List Expr}
    (hn : es ≠ []) (h : ∀ e ∈ es, e.LaidOut d) (i : Nat) {ws : List Word} (hs : Stops ws) :
    items (wordsOf d i (listPieces d separator es) ++ ws) =
      (layouts connective i es).map (Item.map (wordsAt d)) ++ items ws := by
  induction es generalizing i with
  | nil => exact absurd rfl hn
  | cons e es ih =>
    have he := h e (by simp)
    rcases eq_or_ne es [] with rfl | hes
    · exact he i ws hs
    · have rest := ih hes (fun e he => h e (by simp [he])) (i + e.values.length)
      rw [listPieces_cons hes, layouts_cons hes, wordsOf_join _ _ _ loose, hw, bindings_pieces]
      simp only [List.append_assoc, List.map_append, List.map_cons, List.cons_append,
        List.nil_append]
      rw [he i _ (stops _), hi, rest]

theorem laidOut_and {es : List Expr} (hn : es ≠ []) (h : ∀ e ∈ es, e.LaidOut d) :
    (Expr.and es).LaidOut d := fun i _ hs =>
  items_listPieces (w := .run "and".toList) (by decide) (by decide)
    (by simp [Stops, Word.role]) (fun _ => rfl) hn h i hs

theorem laidOut_or {es : List Expr} (hn : es ≠ []) (h : ∀ e ∈ es, e.LaidOut d) :
    (Expr.or es).LaidOut d := fun i _ hs =>
  items_listPieces (w := .run "or".toList) (by decide) (by decide)
    (by simp [Stops, Word.role]) (fun _ => rfl) hn h i hs

theorem LaidOut.closed {e : Expr} (h : e.LaidOut d) (i : Nat) (ws : List Word) :
    items (wordsOf d i (e.pieces d ++ [.fixed ")"]) ++ ws) =
      (e.layout i ++ [Item.closing]).map (Item.map (wordsAt d)) ++ items ws := by
  have closed : fixedWords ")" = [.mark ')'] := by decide
  have stops : Stops (.mark ')' :: ws) := by simp [Stops, Word.role]
  rw [wordsOf_snoc, closed, List.append_assoc, List.singleton_append, h i _ stops, List.map_append,
    List.append_assoc]
  rfl

theorem LaidOut.nested {e : Expr} (h : e.LaidOut d) : (Expr.nested e).LaidOut d := by
  intro i ws _
  have opened : fixedWords "(" = [.mark '('] := by decide
  rw [pieces, wordsOf_fixed, opened]
  exact congrArg (.opening :: ·) (h.closed i ws)

theorem LaidOut.not {e : Expr} (h : e.LaidOut d) : (Expr.not e).LaidOut d := by
  intro i ws _
  have opened : fixedWords "not (" = [.run "not".toList, .mark '('] := by decide
  rw [pieces, wordsOf_fixed, opened]
  exact congrArg (.not :: .opening :: ·) (h.closed i ws)

theorem Grouped.laidOut {e : Expr} (h : e.Grouped) : e.LaidOut d := by
  induction h with
  | compare op hl hr =>
    exact fun i ws hs => ((Grouped.compare op hl hr).leading trivial i).items_append hs
  | isNull negated he =>
    exact fun i ws hs => ((Grouped.isNull negated he).leading trivial i).items_append hs
  | oneOf negated he hn hc =>
    exact fun i ws hs => ((Grouped.oneOf negated he hn hc).leading trivial i).items_append hs
  | between he hl hh =>
    exact fun i ws hs => ((Grouped.between he hl hh).leading trivial i).items_append hs
  | not he ih => exact ih.not
  | nested he ih => exact ih.nested
  | and hn h ih => exact laidOut_and hn ih
  | nestedOr hn h ih => exact (laidOut_or hn ih).nested

/-! ### From items to formulas -/

/-- Where a factor has to begin, the items of the expression are read as factors of the arm. -/
def Factor (e : Expr) : Prop := ∀ i arm, ∃ f : Formula (Nat × Expr),
  (∀ τ, f.truth (τ ∘ Prod.snd) =
    ((arm.map (Formula.truth (τ ∘ Prod.snd))).getD .yes).and (e.truth τ)) ∧
  ∀ arms outer rest,
    readFactor ⟨arms, arm, 0⟩ outer (e.layout i ++ rest) = readOn arms f outer rest

/-- Where a condition has to begin, the items of the expression are read as all of it. -/
def Whole (e : Expr) : Prop := ∀ i, ∃ (arms : Option (Formula (Nat × Expr))) (arm : Formula _),
  (∀ τ, (Formula.join .or arms arm).truth (τ ∘ Prod.snd) = e.truth τ) ∧
  ∀ outer rest, readFactor {} outer (e.layout i ++ rest) = readOn arms arm outer rest

theorem Factor.whole {e : Expr} (h : e.Factor) : e.Whole := by
  intro i
  obtain ⟨f, hf, hread⟩ := h i none
  exact ⟨none, f, fun τ => by simpa [Formula.join] using hf τ, hread none⟩

theorem factor_comparison {e : Expr} (hl : ∀ i, e.layout i = [.comparison (i, e)])
    (ht : ∀ τ, e.truth τ = τ e) : e.Factor := by
  intro i arm
  refine ⟨.join .and arm (.comparison (i, e)), fun τ => ?_, fun arms outer rest => ?_⟩
  · rw [Formula.truth_join_and, ht]
    rfl
  · rw [hl]
    rfl

theorem Whole.nested {e : Expr} (h : e.Whole) : (Expr.nested e).Factor := by
  intro i arm
  obtain ⟨arms', f, hf, hread⟩ := h i
  refine ⟨.join .and arm (.join .or arms' f), fun τ => ?_, fun arms outer rest => ?_⟩
  · rw [Formula.truth_join_and, hf, truth_nested]
  · have layout : (Expr.nested e).layout i ++ rest =
        .opening :: (e.layout i ++ (.closing :: rest)) := by
      rw [Expr.layout]
      simp
    rw [layout, readFactor, hread]
    rfl

theorem Whole.not {e : Expr} (h : e.Whole) : (Expr.not e).Factor := by
  intro i arm
  obtain ⟨arms', f, hf, hread⟩ := h i
  refine ⟨.join .and arm (.not (.join .or arms' f)), fun τ => ?_, fun arms outer rest => ?_⟩
  · rw [Formula.truth_join_and, Formula.truth, hf, truth_not]
  · have layout : (Expr.not e).layout i ++ rest =
        .not :: .opening :: (e.layout i ++ (.closing :: rest)) := by
      rw [Expr.layout]
      simp
    rw [layout, readFactor, readFactor, hread]
    rfl

theorem factor_and {es : List Expr} (hn : es ≠ []) (h : ∀ e ∈ es, e.Factor) :
    (Expr.and es).Factor := by
  intro i arm
  simp only [truth_and, layout]
  induction es generalizing i arm with
  | nil => exact absurd rfl hn
  | cons e es ih =>
    obtain ⟨f, hf, hread⟩ := h e (by simp) i arm
    rcases eq_or_ne es [] with rfl | hes
    · exact ⟨f, fun τ => by simpa [Truth.all] using hf τ, hread⟩
    · obtain ⟨g, hg, hmore⟩ :=
        ih hes (fun e he => h e (by simp [he])) (i + e.values.length) (some f)
      refine ⟨g, fun τ => ?_, fun arms outer rest => ?_⟩
      · rw [hg, Option.map_some, Option.getD_some, hf, List.map_cons, Truth.all_cons,
          Truth.and_assoc]
      · rw [layouts_cons hes, List.append_assoc, hread]
        exact hmore arms outer rest

/-- Each arm of a disjunction is read after the arms before it. -/
theorem reads_arms {es : List Expr} (hn : es ≠ []) (h : ∀ e ∈ es, e.Factor) (i : Nat)
    (before : Option (Formula (Nat × Expr))) :
    ∃ (arms : Option (Formula (Nat × Expr))) (arm : Formula _),
      (∀ τ, (Formula.join .or arms arm).truth (τ ∘ Prod.snd) =
        ((before.map (Formula.truth (τ ∘ Prod.snd))).getD .no).or
          (Truth.any (es.map (truth τ)))) ∧
      ∀ outer rest, readFactor ⟨before, none, 0⟩ outer (layouts .or i es ++ rest) =
        readOn arms arm outer rest := by
  induction es generalizing i before with
  | nil => exact absurd rfl hn
  | cons e es ih =>
    obtain ⟨f, hf, hread⟩ := h e (by simp) i none
    have hf (τ : Expr → Truth) : f.truth (τ ∘ Prod.snd) = e.truth τ := by simpa using hf τ
    rcases eq_or_ne es [] with rfl | hes
    · refine ⟨before, f, fun τ => ?_, hread before⟩
      rw [Formula.truth_join_or, hf]
      simp [Truth.any]
    · obtain ⟨arms, arm, harm, hmore⟩ := ih hes (fun e he => h e (by simp [he]))
        (i + e.values.length) (some (.join .or before f))
      refine ⟨arms, arm, fun τ => ?_, fun outer rest => ?_⟩
      · rw [harm, Option.map_some, Option.getD_some, Formula.truth_join_or, hf, List.map_cons,
          Truth.any_cons, Truth.or_assoc]
      · rw [layouts_cons hes, List.append_assoc, hread]
        exact hmore outer rest

theorem whole_or {es : List Expr} (hn : es ≠ []) (h : ∀ e ∈ es, e.Factor) :
    (Expr.or es).Whole := by
  intro i
  obtain ⟨arms, arm, harm, hread⟩ := reads_arms hn h i none
  exact ⟨arms, arm, fun τ => by simpa using harm τ, hread⟩

theorem Grouped.factor {e : Expr} (h : e.Grouped) : e.Factor := by
  induction h with
  | compare op hl hr => exact factor_comparison (fun _ => rfl) fun _ => rfl
  | isNull negated he => exact factor_comparison (fun _ => rfl) fun _ => rfl
  | oneOf negated he hn hc => exact factor_comparison (fun _ => rfl) fun _ => rfl
  | between he hl hh => exact factor_comparison (fun _ => rfl) fun _ => rfl
  | not he ih => exact ih.whole.not
  | nested he ih => exact ih.whole.nested
  | and hn h ih => exact factor_and hn ih
  | nestedOr hn h ih => exact (whole_or hn ih).nested

theorem IsOperand.known {e : Expr} (h : e.IsOperand) : e.Known := by
  cases h <;> simp [Known, atoms, Atom.Known]

theorem Grouped.known {e : Expr} (h : e.Grouped) : e.Known := by
  induction h with
  | compare op hl hr =>
    exact fun a ha => (List.mem_append.1 ha).elim (hl.known a) (hr.known a)
  | isNull negated he => exact he.known
  | oneOf negated he hn hc =>
    refine fun a ha => (List.mem_append.1 ha).elim (he.known a) fun ha => ?_
    rw [listAtoms_eq] at ha
    obtain ⟨c, hmem, ha⟩ := List.mem_flatMap.1 ha
    exact (hc c hmem).known a ha
  | between he hl hh =>
    exact fun a ha => (List.mem_append.1 ha).elim
      (fun ha => (List.mem_append.1 ha).elim (he.known a) (hl.known a)) (hh.known a)
  | not he ih => exact ih
  | nested he ih => exact ih
  | and hn h ih | nestedOr hn h ih =>
    intro a ha
    simp only [atoms, listAtoms_eq] at ha
    obtain ⟨e, he, ha⟩ := List.mem_flatMap.1 ha
    exact ih e he a ha

/-- The text of a grouped expression reads as a formula over the comparisons of the expression, as
they are written, and the formula has the truth of the expression whatever they are taken for. -/
theorem Grouped.reads_back {e : Expr} (h : e.Grouped) (d : Dialect) :
    ∃ f : Formula (Nat × Expr), Formula.ofText? d (e.render d).text = some (f.map (wordsAt d)) ∧
      ∀ τ, f.truth (τ ∘ Prod.snd) = e.truth τ := by
  obtain ⟨f, hf, hread⟩ := h.factor 0 none
  refine ⟨f, ?_, fun τ => by simpa using hf τ⟩
  have lexed : lex d (e.render d).text.toList = some (tokens d 0 (e.pieces d)) := by
    rw [render, statementOf, String.toList_ofList]
    exact lex_assemble (readable_pieces h.known) 0
  have laid : items (tokenWords (tokens d 0 (e.pieces d))) =
      (e.layout 0).map (Item.map (wordsAt d)) := by
    simpa [items, wordsOf] using h.laidOut 0 [] (by simp [Stops])
  have read : Formula.ofItems? (e.layout 0) = some f := by
    simpa [Formula.ofItems?, readOn, Formula.join] using hread none [] []
  rw [Formula.ofText?, lexed, Option.bind_eq_bind, Option.bind_some, laid, Formula.ofItems?_map,
    read]
  rfl

end Expr

end FilterSql.Sql
