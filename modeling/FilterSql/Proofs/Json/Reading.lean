import FilterSql.Json.Printer
import FilterSql.Json.Reader
import Mathlib.Data.List.DropRight
import Mathlib.Tactic.Common

/-!
# Reading what is printed

The reader undoes the escapes of a string (`string?_escaped`), and skips the line breaks and blanks
of the pretty text.  So a value without numbers (`NumberFree`) is read back from that text, in no
more steps than it has characters (`NumberFree.reads`, `document?_pretty`).
-/

namespace FilterSql.Json

/-! ## Strings -/

theorem hexValue?_hexDigit {n : Nat} (h : n < 16) : hexValue? (hexDigit n) = some n := by
  have all : ∀ n < 16, hexValue? (hexDigit n) = some n := by decide
  exact all n h

/-- An escape of one letter is read as its character. -/
theorem stringParts?_shortEscape {e c : Char} (h : shortEscape? e = some c) (acc : List Part)
    (rest : List Char) :
    stringParts? acc ('\\' :: e :: rest) = stringParts? (.char c :: acc) rest := by
  have hu : e ≠ 'u' := by
    rintro rfl
    cases h
  rw [stringParts?]
  · rw [h]
  · rintro _ _ _ _ _ rfl
    exact absurd rfl hu

/-- The escape of a character is read as one part, which stands for the character. -/
theorem stringParts?_escape (c : Char) : ∃ p : Part,
    (∀ acc rest, stringParts? acc (escape c ++ rest) = stringParts? (p :: acc) rest) ∧
      ∀ ps, joinParts? (p :: ps) = (joinParts? ps).map (c :: ·) := by
  have short {e : Char} (h : shortEscape? e = some c) : ∃ p : Part,
      (∀ acc rest, stringParts? acc (['\\', e] ++ rest) = stringParts? (p :: acc) rest) ∧
        ∀ ps, joinParts? (p :: ps) = (joinParts? ps).map (c :: ·) :=
    ⟨.char c, stringParts?_shortEscape h, fun _ => rfl⟩
  unfold escape
  split_ifs with quote backslash newline carriage tab backspace feed control
  · exact short (by rw [quote]; rfl)
  · exact short (by rw [backslash]; rfl)
  · exact short (by rw [newline]; rfl)
  · exact short (by rw [carriage]; rfl)
  · exact short (by rw [tab]; rfl)
  · exact short (by rw [← c.ofNat_toNat, backspace]; rfl)
  · exact short (by rw [← c.ofNat_toNat, feed]; rfl)
  · -- Other control characters are written by their number.
    have value : hexUnit? '0' '0' (hexDigit (c.toNat / 16)) (hexDigit c.toNat) = some c.toNat := by
      have high : hexValue? (hexDigit (c.toNat / 16)) = some (c.toNat / 16) :=
        hexValue?_hexDigit (by omega)
      have low : hexValue? (hexDigit c.toNat) = some (c.toNat % 16) := by
        rw [show hexDigit c.toNat = hexDigit (c.toNat % 16) by simp [hexDigit]]
        exact hexValue?_hexDigit (Nat.mod_lt _ (by decide))
      have zero : hexValue? '0' = some 0 := rfl
      simp only [hexUnit?, zero, high, low, bind, Option.bind, pure]
      congr 1
      omega
    refine ⟨.unit c.toNat, fun acc rest => ?_, fun ps => ?_⟩
    · simp only [List.cons_append, List.nil_append]
      rw [stringParts?, value]
    · have notHigh : isHighSurrogate c.toNat = false := by simp [isHighSurrogate]; omega
      have notLow : isLowSurrogate c.toNat = false := by simp [isLowSurrogate]; omega
      rw [joinParts?.eq_def]
      simp [notHigh, notLow, c.ofNat_toNat]
  · refine ⟨.char c, fun acc rest => ?_, fun _ => rfl⟩
    rw [List.singleton_append, stringParts?]
    · rw [if_neg (by simp [control, backslash])]
    · exact quote
    · rintro _ _ _ _ _ h -
      exact backslash h
    · rintro _ _ h -
      exact backslash h

/-- The escapes of a string are undone. -/
theorem string?_escaped (s : String) (rest : List Char) :
    string? (s.toList.flatMap escape ++ '"' :: rest) = some (some s, rest) := by
  have parts (cs : List Char) (acc : List Part) : ∃ ps,
      stringParts? acc (cs.flatMap escape ++ '"' :: rest) = some (acc.reverse ++ ps, rest) ∧
        joinParts? ps = some cs := by
    induction cs generalizing acc with
    | nil => exact ⟨[], by simp [stringParts?], rfl⟩
    | cons c cs ih =>
      obtain ⟨p, hread, hjoin⟩ := stringParts?_escape c
      obtain ⟨ps, hparts, hps⟩ := ih (p :: acc)
      refine ⟨p :: ps, ?_, by rw [hjoin, hps]; rfl⟩
      rw [List.flatMap_cons, List.append_assoc, hread, hparts]
      simp
  obtain ⟨ps, hparts, hps⟩ := parts s.toList []
  rw [string?, hparts]
  simp [hps]

/-! ## Blanks -/

theorem skipSpace_lineBreak (depth : Nat) (cs : List Char) :
    skipSpace (lineBreak depth ++ cs) = skipSpace cs := by
  refine List.dropWhile_append_of_pos fun c hc => ?_
  obtain rfl | hc := List.mem_cons.1 hc
  · rfl
  · obtain rfl := List.eq_of_mem_replicate hc
    rfl

theorem skipSpace_of_not {c : Char} (h : isSpace c = false) (cs : List Char) :
    skipSpace (c :: cs) = c :: cs :=
  List.dropWhile_cons_of_neg (by simp [h])

/-- Blanks before a value are skipped. -/
theorem tree?_skipSpace (fuel : Nat) (cs : List Char) :
    tree? fuel (skipSpace cs) = tree? fuel cs := by
  cases fuel with
  | zero => rfl
  | succ fuel =>
    rw [tree?, tree?, skipSpace, skipSpace, List.dropWhile_idempotent]

theorem listItems?_skipSpace (fuel : Nat) (cs : List Char) :
    listItems? fuel (skipSpace cs) = listItems? fuel cs := by
  cases fuel with
  | zero => rfl
  | succ fuel => rw [listItems?, listItems?, tree?_skipSpace]

theorem recordItems?_skipSpace (fuel : Nat) (cs : List Char) :
    recordItems? fuel (skipSpace cs) = recordItems? fuel cs := by
  cases fuel with
  | zero => rfl
  | succ fuel => rw [recordItems?, recordItems?, skipSpace, skipSpace, List.dropWhile_idempotent]

/-- A bracket that is not closed at once begins elements. -/
theorem tree?_bracket {fuel : Nat} {rest cs r : List Char} {c : Char}
    {ts : List Tree} (h : skipSpace rest = c :: cs) (hc : c ≠ ']')
    (items : listItems? fuel rest = some (ts, r)) :
    tree? (fuel + 1) ('[' :: rest) = some (.list ts, r) := by
  rw [← listItems?_skipSpace, h] at items
  simp only [tree?, skipSpace_of_not (show isSpace '[' = false by decide), h]
  split
  · rename_i hclose
    exact absurd (List.cons.inj hclose).1 hc
  · rw [items]
    rfl

/-- A brace that is not closed at once begins members. -/
theorem tree?_brace {fuel : Nat} {rest cs r : List Char} {c : Char}
    {ms : List (Option String × Tree)} (h : skipSpace rest = c :: cs) (hc : c ≠ '}')
    (items : recordItems? fuel rest = some (ms, r)) :
    tree? (fuel + 1) ('{' :: rest) = some (.record ms, r) := by
  rw [← recordItems?_skipSpace, h] at items
  simp only [tree?, skipSpace_of_not (show isSpace '{' = false by decide), h]
  split
  · rename_i hclose
    exact absurd (List.cons.inj hclose).1 hc
  · rw [items]
    rfl

/-! ## Values without numbers -/

/-- The value has no numbers, and its containers are nested at most `depth` deep. -/
inductive NumberFree : Nat → Json → Prop
  | null {depth : Nat} : NumberFree depth .null
  | bool {depth : Nat} (b : Bool) : NumberFree depth (.bool b)
  | str {depth : Nat} (s : String) : NumberFree depth (.str s)
  | arr {depth : Nat} {xs : List Json} (h : ∀ x ∈ xs, NumberFree depth x) :
    NumberFree (depth + 1) (.arr xs)
  | obj {depth : Nat} {ms : Members} (h : ∀ m ∈ ms, NumberFree depth m.2) :
    NumberFree (depth + 1) (.obj ms)

attribute [simp] NumberFree.null NumberFree.bool NumberFree.str

/-- The pretty text is read back in no more steps than it has characters, whatever follows it. -/
def Reads (j : Json) : Prop :=
  ∀ depth fuel rest, (prettyChars depth j).length ≤ fuel →
    tree? fuel (prettyChars depth j ++ rest) = some (Tree.ofJson j, rest)

/-- The text of a value begins with neither a blank nor a closing bracket. -/
theorem NumberFree.head {n : Nat} {j : Json} (h : NumberFree n j) (depth : Nat) :
    ∃ c cs, prettyChars depth j = c :: cs ∧ isSpace c = false ∧ c ≠ ']' := by
  cases h with
  | null => exact ⟨'n', _, rfl, by decide, by decide⟩
  | bool b => cases b <;> exact ⟨_, _, rfl, by decide, by decide⟩
  | str s => exact ⟨'"', _, rfl, by decide, by decide⟩
  | @arr _ xs _ => cases xs <;> exact ⟨'[', _, rfl, by decide, by decide⟩
  | @obj _ ms _ => cases ms <;> exact ⟨'{', _, rfl, by decide, by decide⟩

section

variable {depth fuel : Nat} {rest r : List Char}

theorem Reads.lineBreak {j : Json} (h : Reads j) (hfuel : (prettyChars depth j).length ≤ fuel)
    (outer : Nat) (rest : List Char) :
    tree? fuel (Json.lineBreak outer ++ (prettyChars depth j ++ rest)) =
      some (Tree.ofJson j, rest) := by
  rw [← tree?_skipSpace, skipSpace_lineBreak, tree?_skipSpace, h depth fuel rest hfuel]

theorem Reads.blank {j : Json} (h : Reads j) (hfuel : (prettyChars depth j).length ≤ fuel)
    (rest : List Char) :
    tree? fuel (' ' :: (prettyChars depth j ++ rest)) = some (Tree.ofJson j, rest) := by
  have skipped : skipSpace (' ' :: (prettyChars depth j ++ rest)) =
    skipSpace (prettyChars depth j ++ rest) := rfl
  rw [← tree?_skipSpace, skipped, tree?_skipSpace, h depth fuel rest hfuel]

/-- The last element, before the closing bracket. -/
theorem listItems?_last {x : Json} (hx : Reads x) (hfuel : (prettyChars depth x).length ≤ fuel)
    (hrest : skipSpace rest = ']' :: r) :
    listItems? (fuel + 1) (lineBreak depth ++ (prettyChars depth x ++ rest)) =
      some ([Tree.ofJson x], r) := by
  rw [listItems?, hx.lineBreak hfuel]
  dsimp only [bind, Option.bind]
  rw [hrest]
  rfl

/-- An element before others. -/
theorem listItems?_more {x : Json} (hx : Reads x) (hfuel : (prettyChars depth x).length ≤ fuel)
    {ts : List Tree} (hmore : listItems? fuel rest = some (ts, r)) :
    listItems? (fuel + 1) (lineBreak depth ++ (prettyChars depth x ++ ',' :: rest)) =
      some (Tree.ofJson x :: ts, r) := by
  rw [listItems?, hx.lineBreak hfuel]
  show (listItems? fuel rest).bind (fun p => some (Tree.ofJson x :: p.1, p.2)) = _
  rw [hmore]
  rfl

/-- The name of a member is read before its value. -/
theorem recordItems?_name (k : String) (cs : List Char) :
    recordItems? (fuel + 1) (lineBreak depth ++ (quote k ++ ':' :: cs)) =
      (tree? fuel cs).bind fun (value, r) =>
        match skipSpace r with
        | '}' :: r => some ([(some k, value)], r)
        | ',' :: r => (recordItems? fuel r).bind fun (ms, r) => some ((some k, value) :: ms, r)
        | _ => none := by
  have name : quote k ++ ':' :: cs = '"' :: (k.toList.flatMap escape ++ '"' :: ':' :: cs) := by
    simp [quote]
  rw [recordItems?, skipSpace_lineBreak, name, skipSpace_of_not (by decide)]
  show (string? (k.toList.flatMap escape ++ '"' :: ':' :: cs)).bind _ = _
  rw [string?_escaped]
  rfl

/-- The last member, before the closing brace. -/
theorem recordItems?_last {v : Json} (hv : Reads v) (hfuel : (prettyChars depth v).length ≤ fuel)
    (k : String) (hrest : skipSpace rest = '}' :: r) :
    recordItems? (fuel + 1)
        (lineBreak depth ++ (quote k ++ ':' :: ' ' :: (prettyChars depth v ++ rest))) =
      some ([(some k, Tree.ofJson v)], r) := by
  rw [recordItems?_name, hv.blank hfuel, Option.bind_some]
  dsimp only
  rw [hrest]
  rfl

/-- A member before others. -/
theorem recordItems?_more {v : Json} (hv : Reads v) (hfuel : (prettyChars depth v).length ≤ fuel)
    (k : String) {ms : List (Option String × Tree)}
    (hmore : recordItems? fuel rest = some (ms, r)) :
    recordItems? (fuel + 1)
        (lineBreak depth ++ (quote k ++ ':' :: ' ' :: (prettyChars depth v ++ ',' :: rest))) =
      some ((some k, Tree.ofJson v) :: ms, r) := by
  rw [recordItems?_name, hv.blank hfuel, Option.bind_some]
  show (recordItems? fuel rest).bind _ = _
  rw [hmore]
  rfl

end

/-- Elements are read one after the other, up to the closing bracket. -/
theorem listItems?_pretty {x : Json} {xs : List Json} (h : ∀ y ∈ x :: xs, Reads y)
    {depth fuel : Nat} (hfuel : (prettyElements depth (x :: xs)).length ≤ fuel) (outer : Nat)
    (rest : List Char) :
    listItems? fuel (prettyElements depth (x :: xs) ++ (lineBreak outer ++ ']' :: rest)) =
      some (Tree.ofElements (x :: xs), rest) := by
  induction xs generalizing x fuel with
  | nil =>
    simp only [prettyElements, List.length_append, lineBreak, List.length_cons] at hfuel
    obtain ⟨fuel, rfl⟩ : ∃ f, fuel = f + 1 := ⟨fuel - 1, by omega⟩
    rw [prettyElements, List.append_assoc]
    exact listItems?_last (h x List.mem_cons_self) (by omega) (skipSpace_lineBreak outer _)
  | cons y ys ih =>
    have text : prettyElements depth (x :: y :: ys) =
      lineBreak depth ++ prettyChars depth x ++ ',' :: prettyElements depth (y :: ys) := rfl
    rw [text] at hfuel ⊢
    simp only [List.length_append, lineBreak, List.length_cons] at hfuel
    obtain ⟨fuel, rfl⟩ : ∃ f, fuel = f + 1 := ⟨fuel - 1, by omega⟩
    rw [List.append_assoc, List.append_assoc]
    exact listItems?_more (h x List.mem_cons_self) (by omega)
      (ih (fun z hz => h z (List.mem_cons_of_mem _ hz)) (by omega))

/-- Members are read one after the other, up to the closing brace. -/
theorem recordItems?_pretty {m : String × Json} {ms : Members} (h : ∀ n ∈ m :: ms, Reads n.2)
    {depth fuel : Nat} (hfuel : (prettyMembers depth (m :: ms)).length ≤ fuel) (outer : Nat)
    (rest : List Char) :
    recordItems? fuel (prettyMembers depth (m :: ms) ++ (lineBreak outer ++ '}' :: rest)) =
      some (Tree.ofMembers (m :: ms), rest) := by
  induction ms generalizing m fuel with
  | nil =>
    simp only [prettyMembers, List.length_append, lineBreak, List.length_cons] at hfuel
    obtain ⟨fuel, rfl⟩ : ∃ f, fuel = f + 1 := ⟨fuel - 1, by omega⟩
    rw [prettyMembers, List.append_assoc, List.append_assoc]
    exact recordItems?_last (h m List.mem_cons_self) (by omega) m.1 (skipSpace_lineBreak outer _)
  | cons n ns ih =>
    have text : prettyMembers depth (m :: n :: ns) = lineBreak depth ++ quote m.1 ++
      ':' :: ' ' :: (prettyChars depth m.2 ++ ',' :: prettyMembers depth (n :: ns)) := rfl
    rw [text] at hfuel ⊢
    simp only [List.length_append, lineBreak, List.length_cons] at hfuel
    obtain ⟨fuel, rfl⟩ : ∃ f, fuel = f + 1 := ⟨fuel - 1, by omega⟩
    rw [List.append_assoc, List.append_assoc, List.cons_append, List.cons_append,
      List.append_assoc]
    exact recordItems?_more (h m List.mem_cons_self) (by omega) m.1
      (ih (fun z hz => h z (List.mem_cons_of_mem _ hz)) (by omega))

/-! ## Whole texts -/

theorem skipSpace_prettyElements {n : Nat} {x : Json} (hx : NumberFree n x) (xs : List Json)
    (depth : Nat) (rest : List Char) :
    ∃ c cs, skipSpace (prettyElements depth (x :: xs) ++ rest) = c :: cs ∧ c ≠ ']' := by
  obtain ⟨more, text⟩ : ∃ more, prettyElements depth (x :: xs) =
      lineBreak depth ++ (prettyChars depth x ++ more) := by
    cases xs with
    | nil => exact ⟨[], by simp [prettyElements]⟩
    | cons y ys => exact ⟨',' :: prettyElements depth (y :: ys), by simp [prettyElements]⟩
  obtain ⟨c, cs, hchars, hspace, hc⟩ := hx.head depth
  refine ⟨c, cs ++ more ++ rest, ?_, hc⟩
  rw [text, List.append_assoc, skipSpace_lineBreak, hchars, List.cons_append, List.cons_append,
    skipSpace_of_not hspace]

theorem skipSpace_prettyMembers (m : String × Json) (ms : Members) (depth : Nat)
    (rest : List Char) :
    ∃ cs, skipSpace (prettyMembers depth (m :: ms) ++ rest) = '"' :: cs := by
  obtain ⟨more, text⟩ : ∃ more, prettyMembers depth (m :: ms) =
      lineBreak depth ++ (quote m.1 ++ more) := by
    cases ms with
    | nil => exact ⟨':' :: ' ' :: prettyChars depth m.2, by simp [prettyMembers]⟩
    | cons n ns =>
      exact ⟨':' :: ' ' :: (prettyChars depth m.2 ++ ',' :: prettyMembers depth (n :: ns)),
        by simp [prettyMembers]⟩
  refine ⟨m.1.toList.flatMap escape ++ ['"'] ++ more ++ rest, ?_⟩
  rw [text, List.append_assoc, skipSpace_lineBreak, quote, List.cons_append, List.cons_append,
    skipSpace_of_not (by decide)]

/-- The text of a value has characters, so there is a first step. -/
theorem NumberFree.reads_of_succ {n : Nat} {j : Json} (h : NumberFree n j)
    (step : ∀ depth fuel rest, (prettyChars depth j).length ≤ fuel + 1 →
      tree? (fuel + 1) (prettyChars depth j ++ rest) = some (Tree.ofJson j, rest)) : Reads j := by
  intro depth fuel rest hfuel
  obtain ⟨c, cs, text, -, -⟩ := h.head depth
  have length := congrArg List.length text
  rw [List.length_cons] at length
  obtain ⟨fuel, rfl⟩ : ∃ f, fuel = f + 1 := ⟨fuel - 1, by omega⟩
  exact step depth fuel rest hfuel

/-- A value without numbers is read back from its pretty text. -/
theorem NumberFree.reads {n : Nat} {j : Json} (h : NumberFree n j) : Reads j := by
  induction h with
  | null => exact NumberFree.null.reads_of_succ (n := n) fun depth fuel rest _ => rfl
  | bool b =>
    refine (NumberFree.bool b).reads_of_succ (n := n) fun depth fuel rest _ => ?_
    cases b <;> rfl
  | str s =>
    refine (NumberFree.str s).reads_of_succ (n := n) fun depth fuel rest _ => ?_
    have text : prettyChars depth (.str s) ++ rest =
        '"' :: (s.toList.flatMap escape ++ '"' :: rest) := by
      simp [prettyChars, compactChars, quote]
    rw [text]
    show (string? (s.toList.flatMap escape ++ '"' :: rest)).map _ = _
    rw [string?_escaped]
    rfl
  | @arr _ xs h ih =>
    refine (NumberFree.arr h).reads_of_succ fun depth fuel rest hfuel => ?_
    cases xs with
    | nil => rfl
    | cons x xs =>
      have text : prettyChars depth (.arr (x :: xs)) =
        '[' :: (prettyElements (depth + 1) (x :: xs) ++ lineBreak depth ++ [']']) := rfl
      rw [text] at hfuel ⊢
      simp only [List.length_append, List.length_cons] at hfuel
      rw [List.cons_append, List.append_assoc, List.append_assoc]
      obtain ⟨c, cs, hskip, hc⟩ := skipSpace_prettyElements (h x List.mem_cons_self) xs (depth + 1)
        (lineBreak depth ++ ([']'] ++ rest))
      exact tree?_bracket hskip hc (listItems?_pretty ih (by omega) depth rest)
  | @obj _ ms h ih =>
    refine (NumberFree.obj h).reads_of_succ fun depth fuel rest hfuel => ?_
    cases ms with
    | nil => rfl
    | cons m ms =>
      have text : prettyChars depth (.obj (m :: ms)) =
        '{' :: (prettyMembers (depth + 1) (m :: ms) ++ lineBreak depth ++ ['}']) := rfl
      rw [text] at hfuel ⊢
      simp only [List.length_append, List.length_cons] at hfuel
      rw [List.cons_append, List.append_assoc, List.append_assoc]
      obtain ⟨cs, hskip⟩ := skipSpace_prettyMembers m ms (depth + 1)
        (lineBreak depth ++ (['}'] ++ rest))
      exact tree?_brace hskip (by decide) (recordItems?_pretty ih (by omega) depth rest)

/-- The pretty text of a value without numbers is a document of the value. -/
theorem document?_pretty {n : Nat} {j : Json} (h : NumberFree n j) :
    document? j.pretty = some (Tree.ofJson j) := by
  have read := h.reads 0 (2 * (prettyChars 0 j).length + 2) [] (by omega)
  rw [List.append_nil] at read
  rw [document?, pretty, String.toList_ofList, read]
  rfl

end FilterSql.Json
