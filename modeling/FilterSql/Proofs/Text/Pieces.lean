import FilterSql.Text.Blank
import Mathlib.Data.List.DropRight
import Mathlib.Tactic.Common

/-!
# Pieces of a text

The pieces of a text are what stands between separators (`List.splitOnP`), the runs are those of
them that are not empty (`Text.runs`), and trimming takes the blanks off both ends
(`Text.trimChars`).  The pieces one after the other are the text without its separators
(`flatten_splitOnP`).
-/

namespace FilterSql.Text

variable {sep : Char → Bool} {cs xs ys p : List Char} {c : Char}

/-! ## Pieces -/

/-- The pieces hold what is no separator, in its order. -/
theorem flatten_splitOnP (sep : Char → Bool) (cs : List Char) :
    (cs.splitOnP sep).flatten = cs.filter fun c => !sep c := by
  induction cs with
  | nil => rfl
  | cons c cs ih =>
    rw [List.splitOnP_cons_eq_if_modifyHead, List.filter_cons]
    cases hc : sep c with
    | true => exact ih
    | false =>
      obtain ⟨first, more, hcs⟩ := List.exists_cons_of_ne_nil (List.splitOnP_ne_nil sep cs)
      rw [hcs] at ih ⊢
      exact congrArg (c :: ·) ih

theorem eq_false_of_mem_splitOnP (h : p ∈ cs.splitOnP sep) (hc : c ∈ p) : sep c = false := by
  have mem : c ∈ (cs.splitOnP sep).flatten := List.mem_flatten_of_mem h hc
  rw [flatten_splitOnP] at mem
  simpa using (List.mem_filter.1 mem).2

/-- A character that is no separator is in a piece. -/
theorem exists_mem_splitOnP (hc : c ∈ cs) (h : sep c = false) : ∃ p ∈ cs.splitOnP sep, c ∈ p := by
  rw [← List.mem_flatten, flatten_splitOnP]
  exact List.mem_filter.2 ⟨hc, by simp [h]⟩

/-! ## Runs -/

theorem words_ne_nil {s : String} (hc : c ∈ s.toList) (h : sep c = false) : words sep s ≠ [] := by
  obtain ⟨p, hp, hmem⟩ := exists_mem_splitOnP hc h
  have run : p ∈ runs sep s.toList :=
    List.mem_filter.2 ⟨hp, by simpa using List.ne_nil_of_mem hmem⟩
  exact List.ne_nil_of_mem (List.mem_map_of_mem run)

theorem runs_append_sep (h : sep c = true) :
    runs sep (xs ++ c :: ys) = runs sep xs ++ runs sep ys := by
  rw [runs, List.splitOnP_append_cons _ _ h, List.filter_append]
  rfl

theorem runs_of_forall (hne : cs ≠ []) (h : ∀ c ∈ cs, sep c = false) : runs sep cs = [cs] := by
  rw [runs, List.splitOnP_eq_singleton h]
  simp [hne]

/-- Separators before a text are no part of its runs. -/
theorem runs_append_of_forall (h : ∀ c ∈ xs, sep c = true) : runs sep (xs ++ ys) = runs sep ys := by
  induction xs with
  | nil => rfl
  | cons x xs ih =>
    have head : runs sep ([] ++ x :: (xs ++ ys)) = runs sep [] ++ runs sep (xs ++ ys) :=
      runs_append_sep (h x List.mem_cons_self)
    exact head.trans (ih fun c hc => h c (List.mem_cons_of_mem _ hc))

/-! ## Trimming -/

theorem trimChars_eq (cs : List Char) :
    trimChars cs = (cs.dropWhile isBlank).rdropWhile isBlank := rfl

theorem mem_of_mem_trimChars (h : c ∈ trimChars cs) : c ∈ cs := by
  have inner := (List.dropWhile_sublist _).subset (List.mem_reverse.1 h)
  exact (List.dropWhile_sublist _).subset (List.mem_reverse.1 inner)

/-- Neither end of the text is blank. -/
structure Trimmed (cs : List Char) : Prop where
  head : ∀ c ∈ cs.head?, isBlank c = false
  last : ∀ c ∈ cs.getLast?, isBlank c = false

theorem trimChars_cons_of_blank (h : isBlank c = true) : trimChars (c :: cs) = trimChars cs := by
  rw [trimChars, List.dropWhile_cons_of_pos h, trimChars]

theorem trimChars_append_of_blank (h : ∀ c ∈ ys, isBlank c = true) :
    trimChars (xs ++ ys) = trimChars xs := by
  rw [trimChars_eq, trimChars_eq, List.dropWhile_append]
  split_ifs with hxs
  · have blank : ys.dropWhile isBlank = [] := List.dropWhile_eq_nil_iff.2 h
    rw [blank, List.isEmpty_iff.1 hxs]
  · rw [List.rdropWhile, List.reverse_append,
      List.dropWhile_append_of_pos fun c hc => h c (List.mem_reverse.1 hc)]
    rfl

theorem Trimmed.trimChars_eq (h : Trimmed cs) : trimChars cs = cs := by
  have front : cs.dropWhile isBlank = cs := by
    cases cs with
    | nil => rfl
    | cons c cs => exact List.dropWhile_cons_of_neg (by simp [h.head c rfl])
  rw [Text.trimChars_eq, front, List.rdropWhile_eq_self_iff]
  intro hne
  simp [h.last _ (List.getLast?_eq_getLast_of_ne_nil hne)]

theorem trimmed_trimChars (cs : List Char) : Trimmed (trimChars cs) where
  head c hc := by
    obtain ⟨rest, hrest⟩ : trimChars cs <+: cs.dropWhile isBlank := List.rdropWhile_prefix _ _
    have first := List.head?_dropWhile_not isBlank cs
    rw [← hrest, List.head?_append, hc] at first
    exact first
  last c hc := by
    have hne : trimChars cs ≠ [] := by
      intro hnil
      simp [hnil] at hc
    have same : (trimChars cs).getLast hne = c :=
      Option.some.inj ((List.getLast?_eq_some_getLast hne).symm.trans hc)
    have final := List.rdropWhile_last_not isBlank (cs.dropWhile isBlank) hne
    rw [← same]
    exact eq_false_of_ne_true final

end FilterSql.Text
