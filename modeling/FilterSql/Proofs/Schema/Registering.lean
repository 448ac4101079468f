import FilterSql.Compiler
import FilterSql.Schema.Document
import Mathlib.Data.List.Nodup
import Mathlib.Data.List.Sort

/-!
# Registering entities

Entities are registered one after the other, and those whose name is taken are refused.  The registry
then has under each name the first entity of that name (`Registry.entity?_registered`).  Catalogs in
which the same is found are equal (`Catalog.ext_find?`), so the order of entities with distinct names
leaves no trace (`Registry.registered_perm`).
-/

namespace FilterSql

section names

variable {α : Type} {name : α → String}

/-- Of items with distinct names each is found under its own. -/
theorem find?_eq_some_iff_of_nodup {items : List α} (names : (items.map name).Nodup) {n : String}
    {a : α} : items.find? (fun b => name b == n) = some a ↔ a ∈ items ∧ name a = n := by
  have found {n : String} {a : α} (h : items.find? (fun b => name b == n) = some a) :
      a ∈ items ∧ name a = n :=
    ⟨List.mem_of_find?_eq_some h, by simpa using List.find?_some h⟩
  refine ⟨found, ?_⟩
  rintro ⟨ha, rfl⟩
  obtain ⟨b, hb⟩ : ∃ b, items.find? (fun b => name b == name a) = some b :=
    Option.isSome_iff_exists.1 (List.find?_isSome.2 ⟨a, ha, beq_self_eq_true _⟩)
  obtain ⟨hmem, hname⟩ := found hb
  rw [hb, List.inj_on_of_nodup_map names hmem ha hname]

namespace Catalog

theorem find?_eq_some_iff {c : Catalog α name} {n : String} {a : α} :
    c.find? n = some a ↔ a ∈ c.items ∧ name a = n :=
  find?_eq_some_iff_of_nodup (List.pairwise_map.2 (c.sorted.imp fun h => String.ne_of_lt h))

/-- Catalogs in which the same is found are equal. -/
theorem ext_find? {c d : Catalog α name} (h : ∀ n, c.find? n = d.find? n) : c = d := by
  have members (a : α) : a ∈ c.items ↔ a ∈ d.items := by
    have own (e : Catalog α name) : a ∈ e.items ↔ e.find? (name a) = some a := by
      rw [find?_eq_some_iff, and_iff_left rfl]
    rw [own c, own d, h]
  have : Std.Irrefl fun a b => name a < name b := ⟨fun a => String.lt_irrefl (name a)⟩
  have : Std.Antisymm fun a b => name a < name b :=
    ⟨fun a b hab hba => absurd hba (String.lt_asymm hab)⟩
  have items := c.sorted.eq_of_mem_iff d.sorted members
  cases c
  cases d
  cases items
  rfl

end Catalog

end names

namespace Registry

/-- Registers an entity, unless its name is taken. -/
def registering (g : Registry) (e : Entity) : Registry :=
  match g.register e with
  | .ok g' => g'
  | .error _ => g

/-- The registry of entities that are registered one after the other. -/
def registered (es : List Entity) : Registry := es.foldl registering empty

variable {g : Registry} {e : Entity}

theorem register_of_taken (h : g.contains e.name = true) :
    g.register e = .error (.duplicateEntity e.name) := if_pos h

theorem registering_of_taken (h : g.contains e.name = true) : g.registering e = g := by
  rw [registering, register_of_taken h]

theorem register_of_free (h : g.contains e.name = false) : g.register e = .ok (g.registering e) := by
  rw [registering, register, h]
  rfl

theorem contains_eq (g : Registry) (n : String) : g.contains n = (g.entity? n).isSome := rfl

/-- Registering leaves what is there, and adds an entity under a new name. -/
theorem entity?_registering (g : Registry) (e : Entity) (n : String) :
    (g.registering e).entity? n = (g.entity? n).or (if e.name == n then some e else none) := by
  cases taken : g.contains e.name with
  | true =>
    rw [registering_of_taken taken]
    obtain ⟨e', he'⟩ := Option.isSome_iff_exists.1 (contains_eq g _ ▸ taken)
    by_cases hn : e.name = n
    · rw [← hn, he', Option.some_or]
    · rw [if_neg (mt eq_of_beq hn), Option.or_none]
  | false =>
    have put : g.registering e = ⟨g.entities.put e⟩ := by
      rw [registering, register, taken]
      rfl
    have free : g.entity? e.name = none := by
      rw [contains_eq] at taken
      simpa using taken
    rw [put, entity?, Catalog.find?_put]
    by_cases hn : e.name = n
    · rw [if_pos hn, if_pos (beq_iff_eq.2 hn), ← hn, free, Option.none_or]
    · rw [if_neg hn, if_neg (mt eq_of_beq hn), Option.or_none]
      rfl

theorem entity?_foldl_registering (es : List Entity) (g : Registry) (n : String) :
    (es.foldl registering g).entity? n = (g.entity? n).or (es.find? fun e => e.name == n) := by
  induction es generalizing g with
  | nil => exact Option.or_none.symm
  | cons e es ih =>
    rw [List.foldl_cons, ih, entity?_registering, Option.or_assoc, List.find?_cons]
    cases e.name == n <;> rfl

/-- Under each name is the first entity of the name. -/
theorem entity?_registered (es : List Entity) (n : String) :
    (registered es).entity? n = es.find? fun e => e.name == n :=
  (entity?_foldl_registering es empty n).trans Option.none_or

theorem ext_entity? {g g' : Registry} (h : ∀ n, g.entity? n = g'.entity? n) : g = g' := by
  obtain ⟨c⟩ := g
  obtain ⟨d⟩ := g'
  exact congrArg Registry.mk (Catalog.ext_find? h)

/-- The order in which entities with distinct names are registered makes no difference. -/
theorem registered_perm {es fs : List Entity} (h : es.Perm fs) (names : (es.map Entity.name).Nodup) :
    registered fs = registered es := by
  refine ext_entity? fun n => ?_
  rw [entity?_registered, entity?_registered]
  refine Option.ext fun e => ?_
  rw [find?_eq_some_iff_of_nodup names, h.mem_iff,
    find?_eq_some_iff_of_nodup ((h.map Entity.name).nodup_iff.1 names)]

theorem contains_registered (es : List Entity) (n : String) :
    (registered es).contains n = true ↔ n ∈ es.map Entity.name := by
  rw [contains_eq, entity?_registered, List.find?_isSome, List.mem_map]
  simp

theorem registered_append (es : List Entity) (e : Entity) :
    registered (es ++ [e]) = (registered es).registering e :=
  List.foldl_append

/-- Registering one more entity fails if its name is taken, and then changes nothing. -/
theorem register_registered (es : List Entity) (e : Entity) :
    if e.name ∈ es.map Entity.name then
      (registered es).register e = .error (.duplicateEntity e.name) ∧
        registered (es ++ [e]) = registered es
    else (registered es).register e = .ok (registered (es ++ [e])) := by
  rw [registered_append]
  split_ifs with h
  · have taken := (contains_registered es e.name).2 h
    exact ⟨register_of_taken taken, registering_of_taken taken⟩
  · exact register_of_free (Bool.not_eq_true _ ▸ mt (contains_registered es e.name).1 h)

/-- The registry has the first entity of each name and nothing else; an entity whose name is taken is
refused, and changes nothing; and the order of entities with distinct names makes no difference. -/
theorem registered_canonical (es : List Entity) :
    (∀ n, (registered es).entity? n = es.find? fun e => e.name == n) ∧
    (∀ e, e ∈ (registered es).entities.items ↔ es.find? (fun e' => e'.name == e.name) = some e) ∧
    (∀ e, if e.name ∈ es.map Entity.name then
        (registered es).register e = .error (.duplicateEntity e.name) ∧
          registered (es ++ [e]) = registered es
      else (registered es).register e = .ok (registered (es ++ [e]))) ∧
    ∀ fs, es.Perm fs → (es.map Entity.name).Nodup →
      (registered fs).names = (registered es).names ∧
      (registered fs).toJson.pretty = (registered es).toJson.pretty ∧
      ∀ (dialect : Dialect) (operators : Operators) (entity : String),
        (∀ f, (Compiler.mk (registered fs) dialect operators).select entity f =
          (Compiler.mk (registered es) dialect operators).select entity f) ∧
        ∀ clause, (Compiler.mk (registered fs) dialect operators).count entity clause =
          (Compiler.mk (registered es) dialect operators).count entity clause := by
  refine ⟨entity?_registered es, fun e => ?_, register_registered es, fun fs h names => ?_⟩
  · rw [← entity?_registered, entity?, Catalog.find?_eq_some_iff, and_iff_left rfl]
  · rw [registered_perm h names]
    exact ⟨rfl, rfl, fun _ _ _ => ⟨fun _ => rfl, fun _ => rfl⟩⟩

/-- Two entities in both orders, and the name of one again. -/
theorem registered_canonical_venues :
    (registered [{ name := "Venue" }, { name := "Act" }]).names =
      (registered [{ name := "Act" }, { name := "Venue" }]).names ∧
    registered [{ name := "Venue" }, { name := "Act" }, { name := "Venue", table := some "v" }] =
      registered [{ name := "Venue" }, { name := "Act" }] := by
  refine ⟨?_, ?_⟩
  · exact ((registered_canonical [{ name := "Act" }, { name := "Venue" }]).2.2.2 _
      (List.Perm.swap _ _ _) (by decide)).1
  · have refused := (registered_canonical [{ name := "Venue" }, { name := "Act" }]).2.2.1
      { name := "Venue", table := some "v" }
    rw [if_pos (by decide)] at refused
    exact refused.2

end Registry

end FilterSql
