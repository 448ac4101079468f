import FilterSql.Proofs.Sql.Paths

/-!
# Paths where backslashes escape

MySQL takes a backslash in a literal for the escape of the character after it, and only then reads
the literal as a path.  The backslashes that a path has before the quotes and backslashes of its
members are gone by that time: what is read is the path with its members as they are
(`unescaped?_dollarPath`).  It has the keys that were written exactly if none of them has a quote or
a backslash (`keys_of_escaped_path`).
-/

namespace FilterSql.Sql

/-! ## Literals -/

/-- What a backslash and the character after it stand for in MySQL. -/
def escapeMeaning : Char → List Char
  | '0' => ['\x00']
  | 'b' => ['\x08']
  | 't' => ['\t']
  | 'n' => ['\n']
  | 'r' => ['\r']
  | 'Z' => ['\x1a']
  | '%' => ['\\', '%']
  | '_' => ['\\', '_']
  | c => [c]

/-- The meaning of characters between quotes, where a doubled quote is one and a backslash escapes
the character after it; none if a quote or a backslash stands alone. -/
def unescaped? : List Char → Option (List Char)
  | [] => some []
  | [c] => if c = '\'' ∨ c = '\\' then none else some [c]
  | c :: c' :: rest =>
    if c = '\\' then (unescaped? rest).map (escapeMeaning c' ++ ·)
    else if c ≠ '\'' then (unescaped? (c' :: rest)).map (c :: ·)
    else if c' = '\'' then (unescaped? rest).map ('\'' :: ·)
    else none

/-- In a literal the first characters, with their quotes doubled, have the second as their
meaning. -/
def Spells (cs ds : List Char) : Prop :=
  ∀ rest, unescaped? (doubled '\'' cs ++ rest) = (unescaped? rest).map (ds ++ ·)

namespace Spells

theorem nil : Spells [] [] := by
  intro rest
  simp [doubled]

theorem append {cs ds cs' ds' : List Char} (h : Spells cs ds) (h' : Spells cs' ds') :
    Spells (cs ++ cs') (ds ++ ds') := by
  intro rest
  rw [doubled_append, List.append_assoc, h, h', Option.map_map]
  simp [Function.comp_def]

theorem flatMap {α : Type} {f g : α → List Char} (h : ∀ x, Spells (f x) (g x)) (xs : List α) :
    Spells (xs.flatMap f) (xs.flatMap g) := by
  induction xs with
  | nil => exact nil
  | cons x xs ih => exact (h x).append ih

/-- All but a backslash stands for itself. -/
theorem char {c : Char} (h : c ≠ '\\') : Spells [c] [c] := by
  intro rest
  by_cases quote : c = '\''
  · subst quote
    simp [doubled, unescaped?]
  · have single : doubled '\'' [c] = [c] := by simp [doubled, quote]
    rw [single, List.singleton_append]
    cases rest with
    | nil => simp [unescaped?, quote, h]
    | cons c' rest => rw [unescaped?, if_neg h, if_pos quote]; rfl

theorem chars {cs : List Char} (h : ∀ c ∈ cs, c ≠ '\\') : Spells cs cs := by
  induction cs with
  | nil => exact nil
  | cons c cs ih =>
    exact (char (h c List.mem_cons_self)).append (ih fun d hd => h d (List.mem_cons_of_mem c hd))

/-- The backslash before a character of a member is lost. -/
theorem memberChar (c : Char) : Spells (memberChar c) [c] := by
  unfold Sql.memberChar
  by_cases h : c = '\\' ∨ c = '"'
  · rw [if_pos h]
    intro rest
    obtain rfl | rfl := h <;> simp [doubled, unescaped?, escapeMeaning]
  · rw [if_neg h]
    exact char fun hc => h (.inl hc)

end Spells

/-! ## Paths -/

/-- A member as it is, in quotes if need be. -/
def bareMember (key : List Char) : List Char :=
  if isPlainMember key then key else '"' :: (key ++ ['"'])

/-- The path of members as they are. -/
def barePath (keys : List String) : List Char :=
  '$' :: keys.flatMap fun key => '.' :: bareMember key.toList

/-- The key has no quote and no backslash. -/
def NeedsNoEscape (key : List Char) : Prop := ∀ c ∈ key, c ≠ '\\' ∧ c ≠ '"'

theorem NeedsNoEscape.of_plain {key : List Char} (h : isPlainMember key = true) :
    NeedsNoEscape key := by
  have inside : ∀ c ∈ key, inMember c = true := by
    cases key with
    | nil => exact nofun
    | cons c key =>
      obtain ⟨opens, rest⟩ : opensMember c = true ∧ ∀ d ∈ key, inMember d = true := by
        simpa [isPlainMember, opensMember, inMember] using h
      refine List.forall_mem_cons.2 ⟨?_, rest⟩
      simp only [opensMember, inMember, Bool.or_eq_true, Char.isAlphanum] at opens ⊢
      exact opens.imp_left .inl
  intro c hc
  constructor <;> rintro rfl <;> exact absurd (inside _ hc) (by decide)

theorem flatMap_memberChar {key : List Char} (h : NeedsNoEscape key) :
    key.flatMap memberChar = key := by
  induction key with
  | nil => rfl
  | cons c key ih =>
    obtain ⟨hc, hkey⟩ := List.forall_mem_cons.1 h
    rw [List.flatMap_cons, ih hkey, memberChar, if_neg (not_or.2 hc)]
    rfl

theorem memberChars_eq_bareMember {key : List Char} (h : NeedsNoEscape key) :
    memberChars key = bareMember key := by
  rw [memberChars, bareMember, flatMap_memberChar h]

theorem spells_memberChars (key : List Char) : Spells (memberChars key) (bareMember key) := by
  unfold memberChars bareMember
  by_cases plain : isPlainMember key = true
  · rw [if_pos plain, if_pos plain]
    exact .chars fun c hc => (NeedsNoEscape.of_plain plain c hc).1
  · rw [if_neg plain, if_neg plain]
    have inner : Spells (key.flatMap memberChar) (key.flatMap fun c => [c]) :=
      .flatMap Spells.memberChar key
    rw [List.flatMap_singleton'] at inner
    have quote : Spells ['"'] ['"'] := .char (by decide)
    exact quote.append (inner.append quote)

/-- The literal of a path means the path of the members as they are. -/
theorem unescaped?_dollarPath (keys : List String) :
    unescaped? (doubled '\'' (dollarPath keys).toList) = some (barePath keys) := by
  have dollar : Spells ['$'] ['$'] := .char (by decide)
  have point : Spells ['.'] ['.'] := .char (by decide)
  have members := Spells.flatMap (fun key : String => point.append (spells_memberChars key.toList))
  have path := (dollar.append (members keys)) []
  rw [List.append_nil] at path
  rw [dollarPath, String.toList_ofList]
  simpa [unescaped?, barePath] using path

/-! ## Members as they are -/

theorem quotedMember?_cons {c : Char} (hslash : c ≠ '\\') (hquote : c ≠ '"') (cs : List Char) :
    quotedMember? (c :: cs) = (quotedMember? cs).map fun (key, after) => (c :: key, after) := by
  cases cs with
  | nil => simp [quotedMember?, hquote]
  | cons c' cs => rw [quotedMember?, if_neg hquote, if_pos hslash]

/-- A backslash is read off two of them only. -/
theorem backslashes_of_quotedMember? {cs key after : List Char}
    (h : quotedMember? cs = some ('\\' :: key, after)) :
    ∃ rest, cs = '\\' :: '\\' :: rest ∧ quotedMember? rest = some (key, after) := by
  fun_cases quotedMember? cs with
  | case1 => cases h
  | case2 => simp [quotedMember?] at h
  | case3 c hquote => simp [quotedMember?, hquote] at h
  | case4 => simp [quotedMember?] at h
  | case5 c c' rest hquote hslash =>
    rw [quotedMember?_cons hslash hquote] at h
    obtain ⟨p, -, heq⟩ := Option.map_eq_some_iff.1 h
    exact absurd (List.cons.inj (Prod.mk.inj heq).1).1 hslash
  | case6 c c' rest hquote hslash escape =>
    rw [quotedMember?, if_neg hquote, if_neg hslash, if_pos escape] at h
    obtain ⟨⟨key', after'⟩, hrest, heq⟩ := Option.map_eq_some_iff.1 h
    obtain ⟨hkey, rfl⟩ := Prod.mk.inj heq
    obtain ⟨rfl, rfl⟩ := List.cons.inj hkey
    obtain rfl := not_not.1 hslash
    exact ⟨rest, rfl, hrest⟩
  | case7 c c' rest hquote hslash escape =>
    rw [quotedMember?, if_neg hquote, if_neg hslash, if_neg escape] at h
    cases h

/-- An escape takes two characters for one, so what is read lags behind its text. -/
theorem quotedMember?_ne_replicate (tail after : List Char) : ∀ (cs : List Char) (n : ℕ),
    quotedMember? (cs ++ '"' :: tail) ≠ some (List.replicate (n + 1) '\\' ++ cs, after)
  | cs, n => by
    intro h
    obtain ⟨rest, heq, hrest⟩ := backslashes_of_quotedMember? h
    match cs with
    | [] => cases (List.cons.inj heq).1
    | [c] => cases (List.cons.inj (List.cons.inj heq).2).1
    | c :: c' :: cs =>
      obtain ⟨rfl, heq'⟩ := List.cons.inj heq
      obtain ⟨rfl, rfl⟩ := List.cons.inj heq'
      have longer : List.replicate n '\\' ++ '\\' :: '\\' :: cs =
          List.replicate (n + 1 + 1) '\\' ++ cs := by
        rw [List.replicate_succ', List.replicate_succ', List.append_assoc, List.append_assoc]
        rfl
      exact quotedMember?_ne_replicate tail after cs (n + 1) (longer ▸ hrest)

/-- A member in quotes that is read as it is written has nothing to escape. -/
theorem needsNoEscape_of_quotedMember? {key tail after : List Char}
    (h : quotedMember? (key ++ '"' :: tail) = some (key, after)) : NeedsNoEscape key := by
  induction key with
  | nil => exact nofun
  | cons c key ih =>
    by_cases hquote : c = '"'
    · subst hquote
      cases key <;> simp [quotedMember?] at h
    by_cases hslash : c = '\\'
    · subst hslash
      obtain ⟨rest, heq, hrest⟩ := backslashes_of_quotedMember? h
      cases key with
      | nil => cases (List.cons.inj (List.cons.inj heq).2).1
      | cons c' key =>
        obtain ⟨rfl, rfl⟩ := List.cons.inj (List.cons.inj heq).2
        exact absurd hrest (quotedMember?_ne_replicate tail after key 0)
    rw [List.cons_append, quotedMember?_cons hslash hquote] at h
    obtain ⟨⟨key', after'⟩, hkey, heq⟩ := Option.map_eq_some_iff.1 h
    obtain ⟨same, rfl⟩ := Prod.mk.inj heq
    obtain ⟨-, rfl⟩ := List.cons.inj same
    exact List.forall_mem_cons.2 ⟨⟨hslash, hquote⟩, ih hkey⟩

theorem needsNoEscape_of_pathMember? {key rest after : List Char}
    (h : pathMember? (bareMember key ++ rest) = some (key, after)) : NeedsNoEscape key := by
  unfold bareMember at h
  by_cases plain : isPlainMember key = true
  · exact .of_plain plain
  · rw [if_neg plain, List.cons_append, pathMember?, if_pos rfl, List.append_assoc] at h
    exact needsNoEscape_of_quotedMember? h

/-- Members are read back as they are if they have nothing to escape. -/
theorem pathMembers?_bareMember {keys : List String} :
    pathMembers? (keys.flatMap fun key => '.' :: bareMember key.toList) = some keys ↔
      ∀ key ∈ keys, NeedsNoEscape key.toList := by
  constructor
  · intro h
    induction keys with
    | nil => exact nofun
    | cons key keys ih =>
      rw [List.flatMap_cons, List.cons_append, pathMembers?, if_pos rfl] at h
      split at h
      · rename_i key' after hmember
        obtain ⟨keys', hafter, heq⟩ := Option.map_eq_some_iff.1 h
        obtain ⟨rfl, rfl⟩ := List.cons.inj heq
        rw [String.toList_ofList] at hmember
        have regular := needsNoEscape_of_pathMember? hmember
        rw [← memberChars_eq_bareMember regular,
          pathMember?_memberChars key' (head?_members _ keys')] at hmember
        obtain ⟨-, rfl⟩ := Prod.mk.inj (Option.some.inj hmember)
        refine List.forall_mem_cons.2 ⟨?_, ih hafter⟩
        rwa [String.toList_ofList]
      · cases h
  · intro h
    have same : ∀ key ∈ keys, '.' :: memberChars key.toList = '.' :: bareMember key.toList :=
      fun key hkey => congrArg _ (memberChars_eq_bareMember (h key hkey))
    rw [← List.flatMap_congr same, pathMembers?_flatMap]

/-- What is written as a path reads back if no member has anything to escape. -/
theorem pathKeys?_barePath {keys : List String} :
    pathKeys? (barePath keys) = some keys ↔ ∀ key ∈ keys, NeedsNoEscape key.toList := by
  rw [barePath, pathKeys?, if_pos rfl, pathMembers?_bareMember]

/-! ## Texts in documents -/

/-- The meaning of a literal that is the second argument of a function within another. -/
def innerArgument? : List Token → Option (List Char)
  | [.bare ',', .bare ' ', .literal cs, .bare ')', .bare ')'] => unescaped? cs
  | _ => none

/-- The pieces behind the column in MySQL. -/
def innerArgument (keys : List String) : List Piece :=
  [.fixed ", ", .literal (dollarPath keys), .fixed "))"]

theorem readable_innerArgument (keys : List String) : Readable .mysql (innerArgument keys) := by
  have path : Readable .mysql [.literal (dollarPath keys)] := .singleton (enclosed_dollarPath _ _)
  exact (path.snoc_fixed (by decide)).cons_fixed (by decide)

theorem innerArgument?_lex (keys : List String) (i : ℕ) :
    (lex .mysql (assemble .mysql i (innerArgument keys))).bind innerArgument? =
      some (barePath keys) := by
  have argument : tokens .mysql i (innerArgument keys) = [.bare ',', .bare ' ',
      .literal (doubled '\'' (dollarPath keys).toList), .bare ')', .bare ')'] := rfl
  rw [lex_assemble (readable_innerArgument keys), argument, Option.bind_some, innerArgument?,
    unescaped?_dollarPath]

theorem assemble_innerArgument (column : List Piece) (keys : List String) (i : ℕ) :
    assemble .mysql i (extraction .mysql column keys) = "JSON_UNQUOTE(JSON_EXTRACT(".toList ++
      (assemble .mysql i column ++
        assemble .mysql (i + (bindings column).length) (innerArgument keys)) := by
  rw [extraction, List.cons_append, assemble, assemble_append, innerArgument]

/-- Behind the column stands a literal whose meaning is the path with its members as they are.  Read
as a path it has the keys that it was made of exactly if none of them has a quote or a backslash. -/
theorem keys_of_escaped_path (column : List Piece) (keys : List String) (i : ℕ) :
    ∃ back path, assemble .mysql i (extraction .mysql column keys) =
        "JSON_UNQUOTE(JSON_EXTRACT(".toList ++ (assemble .mysql i column ++ back) ∧
      (lex .mysql back).bind innerArgument? = some path ∧
      path = barePath keys ∧
      (pathKeys? path = some keys ↔ ∀ key ∈ keys, NeedsNoEscape key.toList) :=
  ⟨_, _, assemble_innerArgument column keys i, innerArgument?_lex keys _, rfl, pathKeys?_barePath⟩

/-- The path to a key with quotes ends at the first of them. -/
theorem keys_lost_behind_quote :
    assemble .mysql 0 (extraction .mysql [.fixed "c"] ["say \"hi\""]) =
      "JSON_UNQUOTE(JSON_EXTRACT(c, '$.\"say \\\"hi\\\"\"'))".toList ∧
    (lex .mysql ", '$.\"say \\\"hi\\\"\"'))".toList).bind innerArgument? =
      some "$.\"say \"hi\"\"".toList ∧
    pathKeys? "$.\"say \"hi\"\"".toList ≠ some ["say \"hi\""] := by
  have literal : assemble .mysql 0 (innerArgument ["say \"hi\""]) =
      ", '$.\"say \\\"hi\\\"\"'))".toList := by decide +kernel
  have path : barePath ["say \"hi\""] = "$.\"say \"hi\"\"".toList := by decide +kernel
  refine ⟨by decide +kernel, ?_, fun same => ?_⟩
  · rw [← literal, innerArgument?_lex, path]
  · rw [← path, pathKeys?_barePath] at same
    exact (same _ List.mem_cons_self '"' (by decide)).2 rfl

end FilterSql.Sql
