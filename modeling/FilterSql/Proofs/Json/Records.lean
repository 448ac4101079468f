import FilterSql.Proofs.Json.Reading
import FilterSql.Proofs.Outcome

/-!
# Reading records

The members of a record are those of its fields that are present (`present`).  A reader that asks
for the fields by name gets each of them back (`fields?_present`), and a reader of a list each of
its elements (`asList?_ofJson`).  A value without numbers means something within a budget that
allows for its depth (`NumberFree.isMeaningful`).
-/

namespace FilterSql

namespace Json

/-- The members of a record, of whose fields some may be absent. -/
def present (fields : List (String × Option Json)) : Members :=
  fields.filterMap fun (name, value) => value.map fun v => (name, v)

variable {fields : List (String × Option Json)}

@[simp] theorem present_nil : present [] = [] := rfl

theorem present_cons (name : String) (value : Option Json) (fields : List (String × Option Json)) :
    present ((name, value) :: fields) =
      (value.map fun v => (name, v)).toList ++ present fields := by
  cases value <;> rfl

theorem mem_present {m : String × Json} : m ∈ present fields ↔ (m.1, some m.2) ∈ fields := by
  obtain ⟨name, v⟩ := m
  simp only [present, List.mem_filterMap, Option.map_eq_some_iff, Prod.mk.injEq]
  constructor
  · rintro ⟨⟨name', value⟩, hf, v', hv, rfl, rfl⟩
    exact hv ▸ hf
  · intro hf
    exact ⟨_, hf, v, rfl, rfl, rfl⟩

theorem numberFree_present {n : Nat} (h : ∀ f ∈ fields, ∀ v ∈ f.2, NumberFree n v) :
    NumberFree (n + 1) (.obj (present fields)) :=
  .obj fun m hm => h _ (mem_present.1 hm) m.2 rfl

theorem numberFree_elements {α : Type} {n : Nat} {write : α → Json} {xs : List α}
    (h : ∀ x ∈ xs, NumberFree n (write x)) : NumberFree (n + 1) (.arr (xs.map write)) := by
  refine .arr fun j hj => ?_
  obtain ⟨x, hx, rfl⟩ := List.mem_map.1 hj
  exact h x hx

end Json

namespace Tree

open Json

variable {fields : List (String × Option Json)}

theorem ofElements_eq (xs : List Json) : ofElements xs = xs.map ofJson := by
  induction xs with
  | nil => rfl
  | cons x xs ih => rw [ofElements, ih, List.map_cons]

theorem ofMembers_eq (ms : Members) : ofMembers ms = ms.map fun m => (some m.1, ofJson m.2) := by
  induction ms with
  | nil => rfl
  | cons m ms ih => rw [ofMembers, ih, List.map_cons]

theorem namedMembers?_ofMembers (ms : Members) :
    namedMembers? (ofMembers ms) = some (ms.map fun m => (m.1, ofJson m.2)) := by
  rw [ofMembers_eq, namedMembers?, List.mapM_map]
  exact mapM_eq_some fun _ _ => rfl

/-- Of a record whose fields have different names, each is found. -/
theorem field?_present (h : (fields.map Prod.fst).Nodup) {name : String} {value : Option Json}
    (hf : (name, value) ∈ fields) :
    field? name ((present fields).map fun m => (m.1, ofJson m.2)) = some (value.map ofJson) := by
  have found : ((present fields).map fun m => (m.1, ofJson m.2)).filter (fun m => m.1 == name) =
      (value.map fun v => (name, ofJson v)).toList := by
    induction fields with
    | nil => cases hf
    | cons g rest ih =>
      obtain ⟨name', value'⟩ := g
      obtain ⟨hname, hrest⟩ := List.nodup_cons.1 h
      rw [present_cons, List.map_append, List.filter_append]
      obtain hf | hf := List.mem_cons.1 hf
      · obtain ⟨rfl, rfl⟩ := Prod.mk.inj hf
        -- No later field has the name.
        have none : ((present rest).map fun m => (m.1, ofJson m.2)).filter
            (fun m => m.1 == name) = [] := by
          refine List.filter_eq_nil_iff.2 fun t ht heq => ?_
          obtain ⟨m, hm, rfl⟩ := List.mem_map.1 ht
          exact hname (List.mem_map.2 ⟨_, mem_present.1 hm, eq_of_beq heq⟩)
        rw [none, List.append_nil]
        cases value <;> simp
      · have other : name' ≠ name := by
          rintro rfl
          exact hname (List.mem_map.2 ⟨_, hf, rfl⟩)
        rw [ih hrest hf]
        cases value' <;> simp [other]
  rw [field?, found]
  cases value <;> rfl

/-- The fields of a record are read back, each absent or present. -/
theorem fields?_present {names : List String} (hnames : fields.map Prod.fst = names)
    (h : names.Nodup) :
    fields? names (ofJson (.obj (present fields))) = some (fields.map fun f => f.2.map ofJson) := by
  subst hnames
  rw [ofJson, fields?, namedMembers?_ofMembers]
  show List.mapM _ _ = _
  rw [List.mapM_map]
  exact mapM_eq_some fun f hf => field?_present h hf

/-- A list is read back if each of its elements is, within what is left of the budget. -/
theorem asList?_of_enter {α : Type} {b inner : Budget} (hb : b.enter = some inner)
    {write : α → Json} {read : Budget → Tree → Option α} {xs : List α}
    (h : ∀ x ∈ xs, read inner (ofJson (write x)) = some x) :
    asList? b read (ofJson (.arr (xs.map write))) = some xs := by
  rw [ofJson, ofElements_eq, List.map_map, asList?, hb]
  show List.mapM _ _ = _
  rw [List.mapM_map]
  exact (mapM_eq_some h).trans (by rw [List.map_id'])

theorem asList?_ofJson {α : Type} {n : Nat} {write : α → Json} {read : Budget → Tree → Option α}
    {xs : List α} (h : ∀ x ∈ xs, read (some n) (ofJson (write x)) = some x) :
    asList? (some (n + 1)) read (ofJson (.arr (xs.map write))) = some xs :=
  asList?_of_enter rfl h

theorem optional?_text (text : Option String) :
    optional? asText? ((text.map Json.str).map ofJson) = some text := by
  cases text <;> rfl

theorem exists_elements? {b : Budget} {xs : List Json}
    (h : ∀ x ∈ xs, ∃ v, json? b (ofJson x) = some v) :
    ∃ vs, elements? b (ofElements xs) = some vs := by
  induction xs with
  | nil => exact ⟨[], rfl⟩
  | cons x xs ih =>
    obtain ⟨v, hv⟩ := h x List.mem_cons_self
    obtain ⟨vs, hvs⟩ := ih fun y hy => h y (List.mem_cons_of_mem _ hy)
    exact ⟨v :: vs, by rw [ofElements, elements?, hv, hvs]; rfl⟩

theorem exists_members? {b : Budget} {ms : Members}
    (h : ∀ m ∈ ms, ∃ v, json? b (ofJson m.2) = some v) :
    ∃ vs, members? b (ofMembers ms) = some vs := by
  induction ms with
  | nil => exact ⟨[], rfl⟩
  | cons m ms ih =>
    obtain ⟨v, hv⟩ := h m List.mem_cons_self
    obtain ⟨vs, hvs⟩ := ih fun n hn => h n (List.mem_cons_of_mem _ hn)
    exact ⟨(m.1, v) :: vs, by rw [ofMembers, members?, hv, hvs]; rfl⟩

end Tree

/-- A value without numbers means something within a budget for its depth. -/
theorem Json.NumberFree.isMeaningful {n : Nat} {j : Json} (h : NumberFree n j) :
    (Tree.ofJson j).isMeaningful (some n) = true := by
  rw [Tree.isMeaningful, Option.isSome_iff_exists]
  induction h with
  | null => exact ⟨_, rfl⟩
  | bool b => exact ⟨_, rfl⟩
  | str s => exact ⟨_, rfl⟩
  | arr _ ih =>
    obtain ⟨vs, hvs⟩ := Tree.exists_elements? ih
    refine ⟨.arr vs, ?_⟩
    show (Tree.elements? _ _).bind _ = _
    rw [hvs]
    rfl
  | obj _ ih =>
    obtain ⟨vs, hvs⟩ := Tree.exists_members? ih
    refine ⟨.obj (putAll vs), ?_⟩
    show (Tree.members? _ _).bind _ = _
    rw [hvs]
    rfl

end FilterSql
