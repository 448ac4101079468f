import FilterSql.Proofs.Compiler.Blank
import FilterSql.Proofs.Where.Spellings

/-!
# Statements and spellings

Filters whose trees spell their groups in different ways (`Respelled`) have the same plan, and their
conditions have the same text.  So their statements are the same, the values that are bound included
(`spellings_agree`).
-/

namespace FilterSql

open Sql Sql.Expr

namespace Compiler

variable {c : Compiler} {d : Dialect} {root : Entity} {ms ms' : Members}

/-- Statements of the same text, which bind the same values. -/
def SameSelect (d : Dialect) (s s' : Select) : Prop := s.pieces d = s'.pieces d

theorem carries_sameSelect : Carries (SamePrint d) (SameSelect d) := by
  intro _ _ _ _ _ _ _ condition condition' same
  have clause (e : Option Expr) : clausePieces d " where " e =
      ((e.map (pieces d)).map (.fixed " where " :: ·)).getD [] := by
    cases e <;> rfl
  unfold SameSelect
  rw [Select.pieces, Select.pieces, clause, clause, same]

theorem sameSelect_query {columns : List Expr} {q q' : Select} {label : Option String}
    (h : SameSelect d q q') :
    SameSelect d { columns, source := some (.query q label) }
      { columns, source := some (.query q' label) } := by
  unfold SameSelect at h ⊢
  simp only [Select.pieces, fromPieces, sourcePieces, h]

theorem planned_respelled (h : Respelled .clause ms ms') (order : List String) :
    c.planned root (some ms) order = c.planned root (some ms') order := by
  refine planned_congr ?_ order
  show Session.conditionKeys root ms = Session.conditionKeys root ms'
  rw [Session.conditionKeys_eq, Session.conditionKeys_eq, FilterKey.mentions_respelled h (by simp)]

theorem exchangeable_respelled (hops : c.operators = .standard) (h : Respelled .clause ms ms') :
    c.Exchangeable root (SamePrint d) (some ms) (some ms') where
  planned := planned_respelled h
  condition _ := View.compile_respelled hops h

/-- Statements of the same pieces are rendered alike. -/
theorem render_eq_of_alike {x y : Except CompileError Select} (h : Alike (SameSelect d) x y) :
    (do return (← x).render d : Except CompileError Statement) =
      (do return (← y).render d) := by
  cases h with
  | ok same => exact congrArg (fun ps => Except.ok (statementOf d ps)) same
  | error e => rfl

/-- With the usual operators it does not matter which spelling of its groups a tree of conditions
has: the statements are the same, or fail with the same error. -/
theorem spellings_agree (hops : c.operators = .standard) (h : Respelled .clause ms ms')
    (entity : String) :
    (∀ f : Filter, c.select entity { f with condition := some (.obj ms) } =
      c.select entity { f with condition := some (.obj ms') }) ∧
    c.count entity (some (.obj ms)) = c.count entity (some (.obj ms')) := by
  have exchangeable (root : Entity) :
      c.Exchangeable root (SamePrint c.dialect) (some ms) (some ms') :=
    exchangeable_respelled hops h
  constructor
  · intro f
    refine congrArg (CompileError.ofSchema (c.registry.entity entity) >>= ·) (funext fun root => ?_)
    exact render_eq_of_alike ((exchangeable root).buildSelect carries_sameSelect f)
  · refine congrArg (CompileError.ofSchema (c.registry.entity entity) >>= ·) (funext fun root => ?_)
    exact render_eq_of_alike ((exchangeable root).buildCount carries_sameSelect sameSelect_query)

/-- Organizations that are neither the first nor the second with a project, where the conditions on
the second stand below the arms of `or`. -/
def excluding (second : Members) : Members :=
  [("not", .obj [("or", .obj [("id", .int 1), ("and", .obj second)])])]

/-- The second organization with a project. -/
def secondClause : Members := [("projects.title", .str "a"), ("id", .int 2)]

theorem spellings_agree_bureau :
    Respelled .clause (excluding [("and", .obj secondClause)]) (excluding secondClause) ∧
    (bureau.count "Org" (some (.obj (excluding secondClause)))).map (·.bindings.length) = .ok 3 ∧
    (∀ f : Filter, bureau.select "Org"
        { f with condition := some (.obj (excluding [("and", .obj secondClause)])) } =
      bureau.select "Org" { f with condition := some (.obj (excluding secondClause)) }) ∧
    bureau.count "Org" (some (.obj (excluding [("and", .obj secondClause)]))) =
      bureau.count "Org" (some (.obj (excluding secondClause))) := by
  have spelled : Respelled .clause (excluding [("and", .obj secondClause)])
      (excluding secondClause) := by
    have arm : Respelled .arms [("and", .obj [("and", .obj secondClause)])]
        [("and", .obj secondClause)] := .mapping rfl (.splice secondClause)
    exact .mapping rfl (.mapping rfl (arm.among [("id", .int 1)] []))
  obtain ⟨selected, counted⟩ := spellings_agree (c := bureau) rfl spelled "Org"
  exact ⟨spelled, by decide +kernel, selected, counted⟩

end Compiler

end FilterSql
