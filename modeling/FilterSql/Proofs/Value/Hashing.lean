import FilterSql.Value.Compare
import FilterSql.Proofs.Double.Equality
import FilterSql.Proofs.Json.Distinct
import FilterSql.Proofs.Json.Reading

/-!
# Equality and hashed content

Values that are equal need not have the same content: the two zeros are equal and differ in their
bits, and the text of an object follows the order of its members, which equality does not see.  Of
equal values only a value itself has its content (`Value.content_of_same`); so the values whose
equals all have their content are those without zero doubles and objects of several members.
-/

namespace FilterSql

namespace Json

/-- No number is a zero double, and no object has several members. -/
inductive Fixed : Json → Prop
  | null : Fixed .null
  | bool (b : Bool) : Fixed (.bool b)
  | int (n : Int) : Fixed (.num (.int n))
  | float {x : Double} (h : ¬x.IsZero) : Fixed (.num (.float x))
  | str (s : String) : Fixed (.str s)
  | arr {xs : List Json} (h : ∀ x ∈ xs, Fixed x) : Fixed (.arr xs)
  | empty : Fixed (.obj [])
  | single (k : String) {v : Json} (h : Fixed v) : Fixed (.obj [(k, v)])

/-! ## Equal documents of one text -/

theorem quote_append_inj {s t : String} {r r' : List Char} (h : quote s ++ r = quote t ++ r') :
    s = t ∧ r = r' := by
  have text (s : String) (r : List Char) :
      quote s ++ r = '"' :: (s.toList.flatMap escape ++ '"' :: r) := by simp [quote]
  rw [text, text] at h
  have read := congrArg string? (List.cons.inj h).2
  rw [string?_escaped, string?_escaped] at read
  obtain ⟨hs, hr⟩ := Prod.mk.inj (Option.some.inj read)
  exact ⟨Option.some.inj hs, hr⟩

/-- The zeros are told apart by the sign in their text. -/
theorem numberChars_zero (negative : Bool) : numberChars (.float (.zero negative)) =
    (if negative then ['-'] else []) ++ ['0', '.', '0'] := by
  cases negative <;> decide

theorem numberChars_append_inj {m n : Number} {r r' : List Char} (hsame : m.same n = true)
    (h : numberChars m ++ r = numberChars n ++ r') : m = n ∧ r = r' := by
  have cancel (heq : m = n) : m = n ∧ r = r' := by
    rw [heq] at h
    exact ⟨heq, List.append_cancel_left h⟩
  cases m with
  | int a =>
    cases n with
    | int b => exact cancel (congrArg Number.int (beq_iff_eq.1 hsame))
    | float y => cases hsame
  | float x =>
    cases n with
    | int b => cases hsame
    | float y =>
      obtain rfl | ⟨⟨s, rfl⟩, t, rfl⟩ := Double.eq_or_isZero_of_numEq hsame
      · exact cancel rfl
      · rw [numberChars_zero, numberChars_zero] at h
        cases s <;> cases t
        · exact cancel rfl
        · nomatch h
        · nomatch h
        · exact cancel rfl

/-- Documents equal to `k` whose text begins as that of `k` are `k`. -/
def Legible (k : Json) : Prop := ∀ j r r', same j k = true →
  compactChars j ++ r = compactChars k ++ r' → j = k ∧ r = r'

theorem compactElements_cons (x y : Json) (xs : List Json) :
    compactElements (x :: y :: xs) = compactChars x ++ ',' :: compactElements (y :: xs) := rfl

theorem compactMembers_cons (m n : String × Json) (ms : Members) :
    compactMembers (m :: n :: ms) =
      quote m.1 ++ ':' :: (compactChars m.2 ++ ',' :: compactMembers (n :: ms)) := rfl

theorem eq_of_compactElements {ys : List Json} (hys : ∀ y ∈ ys, Legible y) {xs : List Json}
    {r r' : List Char} (hsame : sameElements xs ys = true)
    (h : compactElements xs ++ r = compactElements ys ++ r') : xs = ys ∧ r = r' := by
  induction ys generalizing xs with
  | nil =>
    cases xs with
    | nil => exact ⟨rfl, h⟩
    | cons x xs => cases hsame
  | cons y ys ih =>
    cases xs with
    | nil => cases hsame
    | cons x xs =>
      rw [sameElements, Bool.and_eq_true] at hsame
      have head := hys y List.mem_cons_self
      cases xs with
      | nil =>
        cases ys with
        | nil =>
          obtain ⟨rfl, hr⟩ := head _ _ _ hsame.1 h
          exact ⟨rfl, hr⟩
        | cons y' ys => nomatch hsame.2
      | cons x' xs =>
        cases ys with
        | nil => nomatch hsame.2
        | cons y' ys =>
          rw [compactElements_cons, compactElements_cons, List.append_assoc, List.append_assoc] at h
          obtain ⟨rfl, rest⟩ := head _ _ _ hsame.1 h
          obtain ⟨hxs, hr⟩ := ih (fun z hz => hys z (List.mem_cons_of_mem _ hz)) hsame.2
            (List.cons.inj rest).2
          rw [hxs]
          exact ⟨rfl, hr⟩

theorem eq_of_compactMembers {all ns : Members} (hall : ∀ n ∈ ns, all.lookup n.1 = some n.2)
    (hns : ∀ n ∈ ns, Legible n.2) {ms : Members} {r r' : List Char}
    (hlength : ms.length = ns.length) (hsame : sameMembers ms all = true)
    (h : compactMembers ms ++ r = compactMembers ns ++ r') : ms = ns ∧ r = r' := by
  induction ns generalizing ms with
  | nil =>
    obtain rfl := List.length_eq_zero_iff.1 hlength
    exact ⟨rfl, h⟩
  | cons n ns ih =>
    cases ms with
    | nil => cases hlength
    | cons m ms =>
      obtain ⟨k, v⟩ := m
      obtain ⟨l, w⟩ := n
      rw [sameMembers, Bool.and_eq_true] at hsame
      -- The names are the same by the text, so the values are compared with each other.
      have head (more more' : List Char)
          (h : quote k ++ ':' :: (compactChars v ++ more) =
            quote l ++ ':' :: (compactChars w ++ more')) : (k, v) = (l, w) ∧ more = more' := by
        obtain ⟨rfl, value⟩ := quote_append_inj h
        rw [hall (k, w) List.mem_cons_self] at hsame
        obtain ⟨rfl, hmore⟩ := hns (k, w) List.mem_cons_self _ _ _ hsame.1
          (List.cons.inj value).2
        exact ⟨rfl, hmore⟩
      cases ms with
      | nil =>
        obtain rfl := List.length_eq_zero_iff.1 (Nat.succ.inj hlength).symm
        rw [compactMembers, compactMembers, List.append_assoc, List.append_assoc] at h
        obtain ⟨hm, hr⟩ := head _ _ h
        rw [hm]
        exact ⟨rfl, hr⟩
      | cons m' ms =>
        cases ns with
        | nil => cases hlength
        | cons n' ns =>
          rw [compactMembers_cons, compactMembers_cons] at h
          simp only [List.append_assoc, List.cons_append] at h
          obtain ⟨hm, h⟩ := head _ _ h
          obtain ⟨hms, hr⟩ := ih (fun n hn => hall n (List.mem_cons_of_mem _ hn))
            (fun n hn => hns n (List.mem_cons_of_mem _ hn)) (Nat.succ.inj hlength) hsame.2
            (List.cons.inj h).2
          rw [hm, hms]
          exact ⟨rfl, hr⟩

/-- Of the documents equal to `k` only `k` has its text. -/
theorem Distinct.legible {k : Json} (hk : k.Distinct) : k.Legible := by
  have cancel {j k : Json} {r r' : List Char} (heq : j = k)
      (h : compactChars j ++ r = compactChars k ++ r') : j = k ∧ r = r' := by
    rw [heq] at h
    exact ⟨heq, List.append_cancel_left h⟩
  induction hk with
  | null =>
    intro j r r' hsame h
    cases j with
    | null => exact cancel rfl h
    | _ => cases hsame
  | bool b =>
    intro j r r' hsame h
    cases j with
    | bool a => exact cancel (congrArg Json.bool (beq_iff_eq.1 hsame)) h
    | _ => cases hsame
  | num n =>
    intro j r r' hsame h
    cases j with
    | num m =>
      obtain ⟨rfl, hr⟩ := numberChars_append_inj hsame h
      exact ⟨rfl, hr⟩
    | _ => cases hsame
  | str t =>
    intro j r r' hsame h
    cases j with
    | str s => exact cancel (congrArg Json.str (beq_iff_eq.1 hsame)) h
    | _ => cases hsame
  | @arr ys _ ih =>
    intro j r r' hsame h
    cases j with
    | arr xs =>
      rw [same] at hsame
      simp only [compactChars, List.cons_append, List.append_assoc] at h
      obtain ⟨rfl, hr⟩ := eq_of_compactElements ih hsame (List.cons.inj h).2
      exact ⟨rfl, (List.cons.inj hr).2⟩
    | _ => cases hsame
  | @obj ns names _ ih =>
    intro j r r' hsame h
    cases j with
    | obj ms =>
      rw [same, Bool.and_eq_true, beq_iff_eq] at hsame
      simp only [compactChars, List.cons_append, List.append_assoc] at h
      obtain ⟨rfl, hr⟩ := eq_of_compactMembers (fun n => lookup_of_mem names) ih hsame.1 hsame.2
        (List.cons.inj h).2
      exact ⟨rfl, (List.cons.inj hr).2⟩
    | _ => cases hsame

theorem Distinct.eq_of_compact {j k : Json} (hk : k.Distinct) (hsame : same j k = true)
    (h : j.compact = k.compact) : j = k :=
  (hk.legible j [] [] hsame (congrArg (· ++ []) (String.ofList_inj.1 h))).1

/-! ## Documents without other equals -/

theorem eq_of_sameElements {xs ys : List Json} (hxs : ∀ x ∈ xs, ∀ y, same x y = true → x = y)
    (h : sameElements xs ys = true) : xs = ys := by
  induction xs generalizing ys with
  | nil =>
    cases ys with
    | nil => rfl
    | cons y ys => cases h
  | cons x xs ih =>
    cases ys with
    | nil => cases h
    | cons y ys =>
      rw [sameElements, Bool.and_eq_true] at h
      rw [hxs x List.mem_cons_self y h.1, ih (fun z hz => hxs z (List.mem_cons_of_mem _ hz)) h.2]

theorem sameMembers_single (k l : String) (v w : Json) :
    sameMembers [(k, v)] [(l, w)] = (decide (k = l) && same v w) := by
  by_cases name : k = l
  · simp [sameMembers, name]
  · simp [sameMembers, List.lookup_cons, beq_eq_false_iff_ne.2 name, name]

/-- A fixed document is equal to itself only. -/
theorem Fixed.eq_of_same {j : Json} (hj : j.Fixed) {k : Json} (h : same j k = true) : j = k := by
  induction hj generalizing k with
  | null =>
    cases k with
    | null => rfl
    | _ => cases h
  | bool b =>
    cases k with
    | bool a => exact congrArg Json.bool (beq_iff_eq.1 h)
    | _ => cases h
  | str s =>
    cases k with
    | str t => exact congrArg Json.str (beq_iff_eq.1 h)
    | _ => cases h
  | int n =>
    cases k with
    | num m =>
      cases m with
      | int m => exact congrArg (Json.num <| .int ·) (beq_iff_eq.1 h)
      | float y => cases h
    | _ => cases h
  | float hx =>
    cases k with
    | num m =>
      cases m with
      | int m => cases h
      | float y =>
        obtain rfl | ⟨zero, -⟩ := Double.eq_or_isZero_of_numEq h
        · rfl
        · exact absurd zero hx
    | _ => cases h
  | @arr xs _ ih =>
    cases k with
    | arr ys =>
      rw [same] at h
      rw [eq_of_sameElements (fun x hx y => ih x hx) h]
    | _ => cases h
  | empty =>
    cases k with
    | obj ns =>
      rw [same, Bool.and_eq_true, beq_iff_eq] at h
      rw [List.length_eq_zero_iff.1 h.1.symm]
    | _ => cases h
  | @single k' v _ ih =>
    cases k with
    | obj ns =>
      rw [same, Bool.and_eq_true, beq_iff_eq] at h
      obtain ⟨⟨l, w⟩, rfl⟩ := List.length_eq_one_iff.1 h.1.symm
      rw [sameMembers_single, Bool.and_eq_true, decide_eq_true_iff] at h
      rw [h.2.1, ih h.2.2]
    | _ => cases h

/-- The document is equal to another one. -/
def HasEqual (j : Json) : Prop := ∃ k : Json, k.Distinct ∧ same j k = true ∧ j ≠ k

theorem fixed_or_elements {xs : List Json} (hxs : ∀ x ∈ xs, x.Distinct)
    (each : ∀ x ∈ xs, same x x = true → x.Fixed ∨ x.HasEqual)
    (hself : sameElements xs xs = true) : (∀ x ∈ xs, x.Fixed) ∨
      ∃ ys : List Json, (∀ y ∈ ys, y.Distinct) ∧ sameElements xs ys = true ∧ xs ≠ ys := by
  induction xs with
  | nil => exact .inl nofun
  | cons x xs ih =>
    rw [sameElements, Bool.and_eq_true] at hself
    rw [List.forall_mem_cons] at hxs each
    obtain fixed | ⟨y, hy, hsame, hne⟩ := each.1 hself.1
    · obtain fixeds | ⟨ys, hys, hsame, hne⟩ := ih hxs.2 each.2 hself.2
      · exact .inl (List.forall_mem_cons.2 ⟨fixed, fixeds⟩)
      · refine .inr ⟨x :: ys, List.forall_mem_cons.2 ⟨hxs.1, hys⟩, ?_,
          fun h => hne (List.cons.inj h).2⟩
        rw [sameElements, hself.1, hsame]
        rfl
    · refine .inr ⟨y :: xs, List.forall_mem_cons.2 ⟨hy, hxs.2⟩, ?_,
        fun h => hne (List.cons.inj h).1⟩
      rw [sameElements, hsame, hself.2]
      rfl

theorem sameMembers_congr {ms ns ns' : Members} (h : ∀ k, ns.lookup k = ns'.lookup k) :
    sameMembers ms ns = sameMembers ms ns' := by
  induction ms with
  | nil => rfl
  | cons m ms ih => rw [sameMembers, sameMembers, h, ih]

/-- The order of two members with different names makes no difference. -/
theorem lookup_swap {m n : String × Json} (h : m.1 ≠ n.1) (ms : Members) (k : String) :
    (m :: n :: ms).lookup k = (n :: m :: ms).lookup k := by
  obtain ⟨first, v⟩ := m
  obtain ⟨second, w⟩ := n
  simp only [List.lookup_cons]
  cases hm : k == first with
  | false => rfl
  | true =>
    have hn : (k == second) = false := beq_eq_false_iff_ne.2 (beq_iff_eq.1 hm ▸ h)
    rw [hn]

/-- A document that is not fixed is equal to another one: with the other zero, or with two members
in the other order. -/
theorem Distinct.fixed_or_hasEqual {j : Json} (hj : j.Distinct) (hself : same j j = true) :
    j.Fixed ∨ j.HasEqual := by
  induction hj with
  | null => exact .inl .null
  | bool b => exact .inl (.bool b)
  | str s => exact .inl (.str s)
  | num n =>
    cases n with
    | int n => exact .inl (.int n)
    | float x =>
      by_cases hx : x.IsZero
      · obtain ⟨negative, rfl⟩ := hx
        exact .inr ⟨.num (.float (.zero !negative)), .num _, Double.numEq_zero negative,
          fun h => Double.zero_ne negative (Number.float.inj (Json.num.inj h))⟩
      · exact .inl (.float hx)
  | @arr xs hxs ih =>
    rw [same] at hself
    obtain fixed | ⟨ys, hys, hsame, hne⟩ := fixed_or_elements hxs ih hself
    · exact .inl (.arr fixed)
    · exact .inr ⟨.arr ys, .arr hys, hsame, fun h => hne (Json.arr.inj h)⟩
  | @obj ms names hms ih =>
    rw [same, Bool.and_eq_true] at hself
    cases ms with
    | nil => exact .inl .empty
    | cons m ms =>
      cases ms with
      | nil =>
        obtain ⟨k, v⟩ := m
        rw [sameMembers_single, Bool.and_eq_true] at hself
        obtain fixed | ⟨w, hw, hsame, hne⟩ := ih _ List.mem_cons_self hself.2.2
        · exact .inl (.single k fixed)
        · refine .inr ⟨.obj [(k, w)], .obj names (by simpa using hw), ?_, ?_⟩
          · rw [same, sameMembers_single, hsame]
            simp
          · simpa using hne
      | cons n ms =>
        have apart : m.1 ≠ n.1 := fun h => by simp [h] at names
        have swap : (n :: m :: ms).Perm (m :: n :: ms) := .swap m n ms
        refine .inr ⟨.obj (n :: m :: ms), .obj ((swap.map _).nodup_iff.2 names)
          (fun l hl => hms l (swap.mem_iff.1 hl)), ?_, fun h => ?_⟩
        · rw [same, sameMembers_congr (lookup_swap apart.symm ms), hself.2]
          simp
        · exact apart (congrArg Prod.fst (List.cons.inj (Json.obj.inj h)).1)

end Json

namespace Value

/-! ## Values -/

/-- Objects in the document of a value have each name once. -/
def Proper : Value → Prop
  | json j => j.Distinct
  | _ => True

/-- The value is no zero double, and its document has none, nor objects of several members. -/
def Fixed : Value → Prop
  | float x => ¬x.IsZero
  | json j => j.Fixed
  | _ => True

/-- The value is neither a double nor a document. -/
def Plain : Value → Prop
  | float _ => False
  | json _ => False
  | _ => True

/-- Plain values are compared by what they are, and hashed so. -/
theorem eq_of_same {v w : Value} (h : v.same w = true) (hv : v.Plain) :
    v = w ∧ v.sameContent w = true := by
  cases v <;> cases w <;> first
    | exact hv.elim
    | exact absurd h Bool.false_ne_true
    | exact ⟨rfl, h⟩
    | exact ⟨congrArg _ (eq_of_beq h), h⟩

/-- A value has the content of a value equal to it if it is that value. -/
theorem sameContent_iff {v w : Value} (hw : w.Proper) (h : v.same w = true) :
    v.sameContent w = true ↔ v = w := by
  cases v with
  | float x =>
    cases w with
    | float y =>
      rw [sameContent, beq_iff_eq, float.injEq]
      exact ⟨congrArg Double.mk, congrArg Double.bits⟩
    | _ => nomatch h
  | json j =>
    cases w with
    | json k =>
      rw [sameContent, beq_iff_eq, json.injEq]
      exact ⟨hw.eq_of_compact h, congrArg Json.compact⟩
    | _ => nomatch h
  | _ =>
    obtain ⟨rfl, content⟩ := Value.eq_of_same h trivial
    exact ⟨fun _ => rfl, fun _ => content⟩

theorem Fixed.eq_of_same {v w : Value} (hv : v.Fixed) (h : v.same w = true) : v = w := by
  cases v with
  | float x =>
    cases w with
    | float y =>
      obtain rfl | ⟨zero, -⟩ := Double.eq_or_isZero_of_numEq h
      · rfl
      · exact absurd zero hv
    | _ => nomatch h
  | json j =>
    cases w with
    | json k => exact congrArg json (Json.Fixed.eq_of_same hv h)
    | _ => nomatch h
  | _ => exact (Value.eq_of_same h trivial).1

theorem Proper.fixed_or_hasEqual {v : Value} (hv : v.Proper) (hself : v.same v = true) :
    v.Fixed ∨ ∃ w : Value, w.Proper ∧ v.same w = true ∧ v ≠ w := by
  cases v with
  | float x =>
    by_cases hx : x.IsZero
    · obtain ⟨negative, rfl⟩ := hx
      refine .inr ⟨float (.zero !negative), trivial, Double.numEq_zero negative,
        fun h => Double.zero_ne negative (float.inj h)⟩
    · exact .inl hx
  | json j =>
    obtain fixed | ⟨k, hk, hsame, hne⟩ := Json.Distinct.fixed_or_hasEqual hv hself
    · exact .inl fixed
    · exact .inr ⟨json k, hk, hsame, fun h => hne (json.inj h)⟩
  | _ => exact .inl trivial

/-- Of the values equal to a value those with its content are the value itself.  So a value whose
equals all have its content is one without zero doubles and objects of several members; there are
no others but NaNs, which are not equal to themselves. -/
theorem content_of_same {v : Value} (hv : v.Proper) :
    (∀ w, w.Proper → v.same w = true → (v.sameContent w = true ↔ v = w)) ∧
    (v.Fixed → ∀ w, v.same w = true → v.sameContent w = true) ∧
    (v.same v = true → ¬v.Fixed → ∃ w, w.Proper ∧ v.same w = true ∧ v.sameContent w = false) := by
  refine ⟨fun w => sameContent_iff, fun fixed w h => ?_, fun hself unfixed => ?_⟩
  · obtain rfl := fixed.eq_of_same h
    exact (sameContent_iff hv h).2 rfl
  · obtain ⟨w, hw, hsame, hne⟩ := (hv.fixed_or_hasEqual hself).resolve_left unfixed
    exact ⟨w, hw, hsame, Bool.not_eq_true _ ▸ mt (sameContent_iff hw hsame).1 hne⟩

/-- The two zeros and two orders of members. -/
theorem content_of_zero :
    Proper (.float (.zero false)) ∧ Proper (.json (.obj [("a", .null), ("b", .null)])) ∧
    (∃ w : Value, w.Proper ∧ (Value.float (.zero false)).same w = true ∧
      (Value.float (.zero false)).sameContent w = false) ∧
    ∃ w : Value, w.Proper ∧ (Value.json (.obj [("a", .null), ("b", .null)])).same w = true ∧
      (Value.json (.obj [("a", .null), ("b", .null)])).sameContent w = false := by
  have zero : Proper (.float (.zero false)) := trivial
  have members : Proper (.json (.obj [("a", .null), ("b", .null)])) :=
    .obj (by decide) (by simp [Json.Distinct.null])
  refine ⟨zero, members, ?_, ?_⟩
  · exact (content_of_same zero).2.2 (by decide) (fun h => h ⟨false, rfl⟩)
  · exact (content_of_same members).2.2 (by decide) nofun

/-- The zeros are equal, and have different bits. -/
theorem zeros_differ : (Value.float (.zero false)).same (.float (.zero true)) = true ∧
    (Value.float (.zero false)).sameContent (.float (.zero true)) = false := by
  decide

end Value

end FilterSql
