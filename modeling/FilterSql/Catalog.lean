/-!
# Catalogs

A `Catalog` holds items by name, in the order of the names and one item for each name.  Two catalogs
with the same items are therefore equal, however they were built.
-/

namespace FilterSql

/-- Items in the strict order of their names. -/
structure Catalog (α : Type) (name : α → String) where
  items : List α
  sorted : items.Pairwise fun a b => name a < name b
  deriving DecidableEq

namespace Catalog

variable {α : Type} {name : α → String}

/-- Puts an item at its place in a sorted list; an item of the same name gives way. -/
def insertItem (name : α → String) (a : α) : List α → List α
  | [] => [a]
  | b :: rest =>
    if name a < name b then a :: b :: rest
    else if name b < name a then b :: insertItem name a rest
    else a :: rest

theorem mem_insertItem {a x : α} {items : List α} (h : x ∈ insertItem name a items) :
    x = a ∨ x ∈ items := by
  induction items with
  | nil => simpa [insertItem] using h
  | cons b rest ih =>
    rw [insertItem] at h
    split at h
    · simpa using h
    · split at h
      · rcases List.mem_cons.1 h with h | h
        · exact .inr (by simp [h])
        · rcases ih h with h | h
          · exact .inl h
          · exact .inr (by simp [h])
      · rcases List.mem_cons.1 h with h | h
        · exact .inl h
        · exact .inr (by simp [h])

theorem pairwise_insertItem (a : α) {items : List α}
    (h : items.Pairwise fun a b => name a < name b) :
    (insertItem name a items).Pairwise fun a b => name a < name b := by
  induction items with
  | nil => simp [insertItem]
  | cons b rest ih =>
    have hb := List.pairwise_cons.1 h
    rw [insertItem]
    split
    · rename_i hab
      refine List.pairwise_cons.2 ⟨fun x hx => ?_, h⟩
      rcases List.mem_cons.1 hx with hx | hx
      · exact hx ▸ hab
      · exact String.lt_trans hab (hb.1 x hx)
    · split
      · rename_i hba
        refine List.pairwise_cons.2 ⟨fun x hx => ?_, ih hb.2⟩
        rcases mem_insertItem hx with hx | hx
        · exact hx ▸ hba
        · exact hb.1 x hx
      · rename_i hab hba
        have heq : name a = name b :=
          String.le_antisymm (String.not_lt.1 hba) (String.not_lt.1 hab)
        exact List.pairwise_cons.2 ⟨fun x hx => heq ▸ hb.1 x hx, hb.2⟩

/-- An item that is at its place already is put there. -/
theorem insertItem_of_mem {a : α} {items : List α} (h : items.Pairwise fun a b => name a < name b)
    (ha : a ∈ items) : insertItem name a items = items := by
  induction items with
  | nil => cases ha
  | cons b rest ih =>
    have hb := List.pairwise_cons.1 h
    rw [insertItem]
    obtain rfl | ha := List.mem_cons.1 ha
    · rw [if_neg (String.lt_irrefl _), if_neg (String.lt_irrefl _)]
    · have hba := hb.1 a ha
      rw [if_neg (String.lt_asymm hba), if_pos hba, ih hb.2 ha]

/-- An item whose name comes after all others is put at the end. -/
theorem insertItem_of_lt {a : α} {items : List α} (h : ∀ b ∈ items, name b < name a) :
    insertItem name a items = items ++ [a] := by
  induction items with
  | nil => rfl
  | cons b rest ih =>
    have hba := h b List.mem_cons_self
    rw [insertItem, if_neg (String.lt_asymm hba), if_pos hba,
      ih fun c hc => h c (List.mem_cons_of_mem _ hc), List.cons_append]

/-- The catalog without items. -/
def empty : Catalog α name := ⟨[], .nil⟩

/-- Puts an item at its place, over any other of its name. -/
def put (a : α) (c : Catalog α name) : Catalog α name :=
  ⟨insertItem name a c.items, pairwise_insertItem a c.sorted⟩

/-- The catalog of a list; of items of one name the last counts. -/
def ofList (items : List α) : Catalog α name := items.foldl (fun c a => c.put a) empty

/-- The item of a name. -/
def find? (n : String) (c : Catalog α name) : Option α := c.items.find? fun a => name a == n

theorem find?_insertItem (a : α) (items : List α) (n : String) :
    (insertItem name a items).find? (fun b => name b == n) =
      if name a = n then some a else items.find? fun b => name b == n := by
  induction items with
  | nil => simp [insertItem]
  | cons b rest ih =>
    rw [insertItem]
    split
    · by_cases ha : name a = n <;> simp [ha]
    · split
      · rename_i hba
        have hne : name b ≠ name a := fun h => String.lt_irrefl _ (h ▸ hba)
        by_cases hb : name b = n
        · simp [hb, hb ▸ hne.symm]
        · simp [hb, ih]
      · rename_i hab hba
        have heq : name a = name b :=
          String.le_antisymm (String.not_lt.1 hba) (String.not_lt.1 hab)
        by_cases hb : name b = n
        · simp [heq, hb]
        · simp [heq, hb]

/-- What is put under a name is found there, and nowhere else. -/
theorem find?_put (a : α) (c : Catalog α name) (n : String) :
    (c.put a).find? n = if name a = n then some a else c.find? n :=
  find?_insertItem a c.items n

/-- What is found under its name is there already. -/
theorem put_of_find? {a : α} {c : Catalog α name} {n : String} (h : c.find? n = some a) :
    c.put a = c := by
  have same := insertItem_of_mem c.sorted (List.mem_of_find?_eq_some h)
  cases c
  simp only [put, same]

/-- Items after all others of a catalog, and in order, stay as they are. -/
theorem items_foldl_put {items : List α} {c : Catalog α name}
    (h : (c.items ++ items).Pairwise fun a b => name a < name b) :
    (items.foldl (fun c a => c.put a) c).items = c.items ++ items := by
  induction items generalizing c with
  | nil => rw [List.foldl_nil, List.append_nil]
  | cons a items ih =>
    have last : (c.put a).items = c.items ++ [a] :=
      insertItem_of_lt fun b hb => (List.pairwise_append.1 h).2.2 b hb a List.mem_cons_self
    have assoc : c.items ++ a :: items = (c.put a).items ++ items := by
      rw [last, List.append_assoc, List.singleton_append]
    rw [List.foldl_cons, ih (assoc ▸ h), assoc]

/-- A catalog is the catalog of its items. -/
theorem ofList_items (c : Catalog α name) : ofList c.items = c := by
  have items : (ofList c.items : Catalog α name).items = c.items := items_foldl_put c.sorted
  generalize (ofList c.items : Catalog α name) = d at items
  cases c
  cases d
  cases items
  rfl

/-- Is there an item of the name? -/
def contains (n : String) (c : Catalog α name) : Bool := (c.find? n).isSome

/-- The names in their order. -/
def names (c : Catalog α name) : List String := c.items.map name

instance : Inhabited (Catalog α name) := ⟨empty⟩

end Catalog

end FilterSql
