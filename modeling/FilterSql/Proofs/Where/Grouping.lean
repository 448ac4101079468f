import FilterSql.Proofs.Sql.Grouping
import FilterSql.Proofs.Where.Shape

/-!
# Compiled conditions read as they are

What a tree of conditions compiles to has all the parentheses that it needs, so that its text, read
by precedence, has the truth of the expression (`View.compile_reads_back`).
-/

namespace FilterSql

open Sql

theorem Entity.isOperand_columnExpr (e : Entity) (q : Option String) (property : String) :
    (e.columnExpr q property).IsOperand := .column _

theorem Entity.isOperand_keyExpr (e : Entity) (q : Option String) (key : String) :
    (e.keyExpr q key).IsOperand := by
  unfold keyExpr
  split
  · exact e.isOperand_columnExpr q key
  split
  · exact .textAt _ _
  · exact e.isOperand_columnExpr q key

namespace View

variable {w : View}

/-- A key stands for a column or for a text in one. -/
theorem isOperand_resolveKey {key : String} {e : Expr} (h : w.resolveKey key = .ok (some e)) :
    e.IsOperand := by
  unfold resolveKey at h
  dsimp only at h
  split at h
  · obtain rfl := Option.some.inj (Except.ok.inj h)
    exact w.root.isOperand_columnExpr _ _
  split at h
  · obtain rfl := Option.some.inj (Except.ok.inj h)
    exact w.root.isOperand_keyExpr _ _
  split at h
  · obtain ⟨entity, -, h⟩ := bind_eq_ok.1 h
    obtain rfl := Option.some.inj (pure_eq_ok.1 h)
    exact entity.isOperand_keyExpr _ _
  · simp at h

theorem Operand.isOperand {e : Expr} (h : w.Operand e) : e.IsOperand := by
  cases h with
  | key h => exact isOperand_resolveKey h
  | value v => exact .value v

/-- Compiled conditions have the parentheses that they need. -/
theorem Compiled.grouped {e : Expr} (h : w.Compiled e) : e.Grouped := by
  have arms {es : List Expr} (h : ∀ e ∈ es, e.Grouped) : ∀ e ∈ es.map Expr.nested, e.Grouped := by
    intro e he
    obtain ⟨x, hx, rfl⟩ := List.mem_map.1 he
    exact .nested (h x hx)
  induction h with
  | compare op hl hr => exact .compare op hl.isOperand hr.isOperand
  | isNull negated he => exact .isNull negated he.isOperand
  | oneOf negated he hv =>
    refine .oneOf negated he.isOperand (by simpa using hv) fun c hc => ?_
    obtain ⟨v, -, rfl⟩ := List.mem_map.1 hc
    exact .value v
  | between low high he => exact .between he.isOperand (.value low) (.value high)
  | not he ih => exact .not ih
  | and hn h ih => exact .and hn ih
  | all hn h ih => exact .nested (.and (by simpa using hn) (arms ih))
  | any hn h ih => exact .nestedOr (by simpa using hn) (arms ih)

/-- The expression of a tree needs no more parentheses than it has: in every dialect its text reads
as a formula over the comparisons in it, and the formula has the truth of the expression whatever
the comparisons are taken for. -/
theorem compile_reads_back {clause : Option Members} {e : Expr}
    (h : w.compile clause = .ok (some e)) (d : Dialect) :
    e.Grouped ∧ ∃ f : Formula (Nat × Expr),
      Formula.ofText? d (e.render d).text = some (f.map (Expr.wordsAt d)) ∧
      ∀ τ, f.truth (τ ∘ Prod.snd) = e.truth τ := by
  have grouped : e.Grouped := (compiled_compile h).grouped
  exact ⟨grouped, grouped.reads_back d⟩

/-- Books on a shelf. -/
def shelf : Registry := ⟨.ofList [{
  name := "Book", properties := [{ name := "title" }, { name := "price" }, { name := "info" }] }]⟩

/-- Disjunctions under negation and beside other conditions, on keys and over lists. -/
def shelfClause : Members := [
  ("price", .obj [("not", .obj [("between", .arr [.int 1, .int 5])]),
    ("or", .obj [("title", .null), ("info.author", .str "Ann")])]),
  ("!", .arr [.obj [("or", .arr [.obj [("title", .str "and")], .obj [("price", .int 9)]]),
    ("title", .str "or")]])]

/-- The text of these conditions. -/
def shelfText : String :=
  "not (\"price\" between ? and ?) and ((\"title\" is null) or " ++
  "(json_extract(\"info\", '$.author') = ?)) and " ++
  "not (((((\"title\" = ?) or (\"price\" = ?)) and \"title\" = ?)))"

theorem compile_reads_back_shelf : ∃ root e, shelf.entity? "Book" = some root ∧
    compile ⟨shelf, root, {}, .standard⟩ (some shelfClause) = .ok (some e) ∧
    (e.render .sqlite).text = shelfText ∧ ∀ d, e.Grouped ∧ ∃ f : Formula (Nat × Expr),
      Formula.ofText? d (e.render d).text = some (f.map (Expr.wordsAt d)) ∧
      ∀ τ, f.truth (τ ∘ Prod.snd) = e.truth τ := by
  have outcome : (shelf.entity? "Book").map (fun root =>
      (compile ⟨shelf, root, {}, .standard⟩ (some shelfClause)).map
        (Option.map fun e => (e.render .sqlite).text)) = some (.ok (some shelfText)) := by
    decide +kernel
  obtain ⟨root, hroot, h⟩ := Option.map_eq_some_iff.1 outcome
  obtain ⟨e?, he, h⟩ := map_eq_ok.1 h
  obtain ⟨e, rfl, text⟩ := Option.map_eq_some_iff.1 h
  exact ⟨root, e, hroot, he, text, compile_reads_back he⟩

end View

end FilterSql
