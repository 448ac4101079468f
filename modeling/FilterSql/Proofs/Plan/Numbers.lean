import FilterSql.Proofs.Plan.Groups
import FilterSql.Proofs.Plan.Labels
import Mathlib.Data.List.Nodup

/-!
# Numbers of planned joins

The label of a planned join begins with the number under which it was planned, and a number is drawn
for the joins of one relation (`Session.Numbered`).  So two labels can be the same only if they are
those of one relation: of a table in between and of the table that is joined to it
(`Session.Numbered.nodup_labels_iff`).
-/

namespace FilterSql

namespace Session

variable {g : Registry} {root : Entity} {s s' : Session}

/-- The joins of one relation, as they are planned under a number. -/
structure Batch (g : Registry) (number : Nat) (js : List Join) : Prop where
  labeled : ∃ depth, ∀ j ∈ js, j.stem = stemOf number depth ∧
    ∃ e, g.entity? j.target = some e ∧ j.label = j.stem ++ e.tableName
  /-- A relation needs one join, or two if it goes by way of a table of pairs. -/
  few : (∃ j, js = [j]) ∨ ∃ half last, js = [half, last]

/-- The joins are those of relations that were planned one after the other, each under the next
number. -/
def Numbered (g : Registry) (s : Session) : Prop :=
  ∃ batches : List (List Join), s.joins = batches.flatten ∧ batches.length = s.next ∧
    ∀ n js, batches[n]? = some js → Batch g n js

/-- A group is a batch. -/
theorem batch_of_joined {x : Crossing} {number : Nat} {earlier joins : List Join}
    (h : x.Joined g root number earlier joins) : Batch g number joins where
  labeled := ⟨x.before.length, fun j hj => ⟨h.stems j hj, h.labels j hj⟩⟩
  few := by
    obtain ⟨r, j, -, rfl, -⟩ | ⟨r, half, last, -, rfl, -⟩ := h.shape
    · exact .inl ⟨j, rfl⟩
    · exact .inr ⟨half, last, rfl⟩

/-- In all sessions that planning comes to, numbers are drawn one after the other. -/
theorem Reached.numbered (h : Reached g root s) : s.Numbered g := by
  obtain ⟨groups, hflat, hlength, hgroups⟩ := h.grouped
  refine ⟨groups, hflat, hlength, fun n joins hn => ?_⟩
  obtain ⟨x, hx⟩ := hgroups n joins hn
  exact batch_of_joined hx

/-! ## Different labels -/

/-- Joins of different numbers have different labels. -/
theorem Batch.label_ne {m n : Nat} {js ks : List Join} (hj : Batch g m js) (hk : Batch g n ks)
    (h : m ≠ n) {j k : Join} (hmemj : j ∈ js) (hmemk : k ∈ ks) : j.label ≠ k.label := by
  obtain ⟨d, hd⟩ := hj.labeled
  obtain ⟨e, he⟩ := hk.labeled
  obtain ⟨hstem, target, -, hlabel⟩ := hd j hmemj
  obtain ⟨hstem', target', -, hlabel'⟩ := he k hmemk
  rw [hlabel, hlabel', hstem, hstem']
  exact fun heq => h (number_eq_of_label heq)

/-- Labels are different as soon as they are within each batch. -/
theorem nodup_labels_of_batches {batches : List (List Join)}
    (hbatch : ∀ n js, batches[n]? = some js → Batch g n js)
    (h : ∀ js ∈ batches, (js.map (·.label)).Nodup) :
    (batches.flatten.map (·.label)).Nodup := by
  rw [List.map_flatten, List.nodup_flatten]
  refine ⟨by simpa using h, ?_⟩
  rw [List.pairwise_map, List.pairwise_iff_getElem]
  intro m n hm hn hlt label hj hk
  obtain ⟨j, hmemj, rfl⟩ := List.mem_map.1 hj
  obtain ⟨k, hmemk, hlabel⟩ := List.mem_map.1 hk
  exact (hbatch m _ (List.getElem?_eq_getElem hm)).label_ne
    (hbatch n _ (List.getElem?_eq_getElem hn)) (by omega) hmemj hmemk hlabel.symm

/-- Two joins of one relation, one right after the other. -/
def Pair (s : Session) (half last : Join) : Prop :=
  [half, last] <:+: s.joins ∧ half.stem = last.stem

/-- No label is said twice: the two tables of a relation have different names, and no join is called
like the root. -/
structure Apart (g : Registry) (root : Entity) (s : Session) : Prop where
  pairs : ∀ half last e e', s.Pair half last → g.entity? half.target = some e →
    g.entity? last.target = some e' → e.tableName ≠ e'.tableName
  root : root.tableName ∉ s.joins.map (·.label)

/-- A label is the stem of its join and the name of the table. -/
theorem Numbered.label_eq (h : s.Numbered g) {j : Join} (hj : j ∈ s.joins) :
    ∃ number depth e, j.stem = stemOf number depth ∧ g.entity? j.target = some e ∧
      j.label = j.stem ++ e.tableName := by
  obtain ⟨batches, hflat, -, hbatch⟩ := h
  rw [hflat] at hj
  obtain ⟨js, hjs, hmem⟩ := List.mem_flatten.1 hj
  obtain ⟨n, hn⟩ := List.mem_iff_getElem?.1 hjs
  obtain ⟨depth, hlabeled⟩ := (hbatch n js hn).labeled
  obtain ⟨hstem, e, he, hlabel⟩ := hlabeled j hmem
  exact ⟨n, depth, e, hstem, he, hlabel⟩

/-- Of one relation, joins have different labels if their tables have different names. -/
theorem Batch.nodup {n : Nat} {js : List Join} (hjs : Batch g n js)
    (h : ∀ half last e e', js = [half, last] → g.entity? half.target = some e →
      g.entity? last.target = some e' → e.tableName ≠ e'.tableName) :
    (js.map (·.label)).Nodup := by
  obtain ⟨depth, hlabeled⟩ := hjs.labeled
  obtain ⟨j, rfl⟩ | ⟨half, last, rfl⟩ := hjs.few
  · exact List.nodup_singleton _
  obtain ⟨hstem, e, he, hlabel⟩ := hlabeled half (by simp)
  obtain ⟨hstem', e', he', hlabel'⟩ := hlabeled last (by simp)
  have tables : e.tableName ≠ e'.tableName := h half last e e' rfl he he'
  simpa [hlabel, hlabel', hstem, hstem'] using tables

/-- Within a session all labels are different just in case no relation has two tables of one name
and no join is called like the root. -/
theorem Numbered.nodup_labels_iff (h : s.Numbered g) :
    (s.labels root).Nodup ↔ s.Apart g root := by
  rw [labels, List.nodup_cons]
  constructor
  · rintro ⟨hroot, hnodup⟩
    refine ⟨fun half last e e' hpair he he' heq => ?_, hroot⟩
    obtain ⟨htogether, hstem⟩ := hpair
    obtain ⟨-, -, e₁, -, he₁, hlabel⟩ := h.label_eq (htogether.subset (by simp) : half ∈ s.joins)
    obtain ⟨-, -, e₂, -, he₂, hlabel'⟩ := h.label_eq (htogether.subset (by simp) : last ∈ s.joins)
    obtain rfl := Option.some.inj (he.symm.trans he₁)
    obtain rfl := Option.some.inj (he'.symm.trans he₂)
    have distinct : [half.label, last.label].Nodup :=
      (htogether.map Join.label).sublist.nodup hnodup
    refine (List.nodup_cons.1 distinct).1 ?_
    rw [hlabel, hlabel', hstem, heq]
    exact List.mem_cons_self
  · intro hapart
    obtain ⟨batches, hflat, -, hbatch⟩ := h
    refine ⟨hapart.root, hflat ▸ nodup_labels_of_batches hbatch fun js hjs => ?_⟩
    obtain ⟨n, hn⟩ := List.mem_iff_getElem?.1 hjs
    refine (hbatch n js hn).nodup fun half last e e' heq => ?_
    obtain ⟨depth, hlabeled⟩ := (hbatch n js hn).labeled
    subst heq
    have together : [half, last] <:+: s.joins := hflat ▸ List.infix_of_mem_flatten hjs
    have stems : half.stem = last.stem :=
      (hlabeled half (by simp)).1.trans (hlabeled last (by simp)).1.symm
    exact hapart.pairs half last e e' ⟨together, stems⟩

end Session

end FilterSql
