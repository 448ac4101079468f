import FilterSql.Postgres.Executor
import FilterSql.Proofs.Postgres.Integers

/-!
# Cells sent back

The value of a cell can be bound to a placeholder of the type that the cell has, and what is sent is
a cell of the same value (`cells_sent_back`).  Each form on the wire is read back on its own: words
in `FilterSql.Proofs.Postgres.Words`, texts, identifiers, days and moments here.
-/

namespace FilterSql.Postgres

/-! ## Words -/

theorem wordOf_lt (bs : Bytes) : wordOf bs < 256 ^ bs.length := by
  induction bs with
  | nil => decide
  | cons b bs ih =>
    have small : b.toNat < 256 := b.toNat_lt
    have high : (b.toNat + 1) * 256 ^ bs.length ≤ 256 * 256 ^ bs.length :=
      Nat.mul_le_mul_right _ small
    rw [wordOf_cons, List.length_cons, Nat.pow_succ]
    grind

theorem lt_of_unsigned? {width n : ℕ} {bs : Bytes} (h : unsigned? width bs = some n) :
    n < 256 ^ width := by
  obtain ⟨rfl, heq⟩ := Option.ite_none_right_eq_some.1 h
  obtain rfl := Option.some.inj heq
  exact wordOf_lt bs

/-- What is read from bytes fits in them. -/
theorem fits_of_signed? {width : ℕ} {n : ℤ} {bs : Bytes} (h : signed? width bs = some n) :
    Fits width n := by
  rw [signed?] at h
  cases hword : unsigned? width bs with
  | none => simp [hword] at h
  | some m =>
    have small := lt_of_unsigned? hword
    have cast : ((256 ^ width : ℕ) : ℤ) = 256 ^ width := Nat.cast_pow 256 width
    obtain rfl : (if 2 * (m : ℤ) < 256 ^ width then (m : ℤ) else m - 256 ^ width) = n := by
      simpa [hword] using h
    unfold Fits
    split_ifs with lower <;> omega

/-! ## Texts -/

theorem toList_loop (b : ByteArray) (i : ℕ) (done : List UInt8) :
    ByteArray.toList.loop b i done = done.reverse ++ b.data.toList.drop i := by
  fun_induction ByteArray.toList.loop b i done with
  | case1 i done h ih =>
    have here : b.data.toList.drop i = b.get! i :: b.data.toList.drop (i + 1) := by
      rw [List.drop_eq_getElem_cons (by simpa using h), Array.getElem_toList]
      congr 1
      exact (getElem!_pos b.data i h).symm
    rw [ih, here, List.reverse_cons, List.append_assoc, List.singleton_append]
  | case2 i done h =>
    rw [List.drop_eq_nil_of_le (by simpa using Nat.not_lt.1 h), List.append_nil]

/-- A text is read back from its bytes. -/
theorem text?_textBytes (s : String) : text? (textBytes s) = some s := by
  have bytes : (⟨s.toUTF8.toList.toArray⟩ : ByteArray) = s.toUTF8 := by
    apply ByteArray.ext
    rw [ByteArray.toList, toList_loop]
    simp
  rw [text?, textBytes, bytes]
  exact dif_pos s.isValidUTF8

/-! ## Truth values and identifiers -/

theorem bool?_boolBytes (b : Bool) : bool? (boolBytes b) = some b := by
  cases b <;> rfl

/-- An identifier is read back from its bytes. -/
theorem uuid?_uuidBytes (u : Uuid) : uuid? (uuidBytes u) = some u := by
  have word : unsigned? 16 (uuidBytes u) = some u.value.toNat := unsigned?_wordBytes u.value.isLt
  rw [uuid?, word, Option.map_some, BitVec.ofNat_toNat, BitVec.setWidth_eq]

/-! ## Days and moments -/

open Calendar in
/-- The microseconds of the years of dates fit in words. -/
theorem firstDay_lastDay : -10 ^ 8 < firstDay ∧ lastDay < 10 ^ 8 := by decide

/-- A day is read back from its bytes. -/
theorem date?_dateBytes (d : Date) : date? (dateBytes d) = some d := by
  have bounds := firstDay_lastDay
  have inRange := d.inRange
  have word : signed? 4 (dateBytes d) = some (d.days - epochDay) := by
    apply signed?_signedBytes <;> unfold epochDay <;> omega
  rw [date?, word, Option.bind_eq_bind, Option.bind_some, Int.sub_add_cancel, Date.ofDays?,
    dif_pos inRange]

theorem microseconds_eq {t : Moment} (whole : t.nanos % 1000 = 0) :
    microseconds t = (t.seconds - epochDay * 86400) * 1000000 + (t.nanos / 1000 : ℕ) := by
  have exact : (t.seconds - epochDay * 86400) * 1000000000 + t.nanos =
      ((t.seconds - epochDay * 86400) * 1000000 + (t.nanos / 1000 : ℕ)) * 1000 := by omega
  rw [microseconds, exact, Int.mul_tdiv_cancel _ (by decide)]

/-- A moment of whole microseconds is read back from its bytes, unless it is in a leap second. -/
theorem moment?_momentBytes {t : Moment} (whole : t.nanos % 1000 = 0) (steady : t.nanos < 10 ^ 9) :
    moment? (momentBytes t) = some t := by
  have bounds := firstDay_lastDay
  have inRange := t.inRange
  have count := microseconds_eq whole
  unfold epochDay at count
  have word : signed? 8 (momentBytes t) = some (microseconds t) := by
    apply signed?_signedBytes <;> omega
  have seconds : microseconds t / 1000000 + epochDay * 86400 = t.seconds := by
    unfold epochDay
    omega
  have nanos : (microseconds t % 1000000).toNat * 1000 = t.nanos := by omega
  rw [moment?, word, Option.bind_eq_bind, Option.bind_some, seconds, nanos, Moment.ofSeconds?,
    dif_pos inRange, dif_pos t.nanos_lt]

/-- What is read as a moment has whole microseconds and is in no leap second. -/
theorem steady_of_moment? {bs : Bytes} {t : Moment} (h : moment? bs = some t) :
    t.nanos % 1000 = 0 ∧ t.nanos < 10 ^ 9 := by
  obtain ⟨n, -, hn⟩ := Option.bind_eq_some_iff.1 h
  rw [Moment.ofSeconds?] at hn
  split_ifs at hn
  obtain rfl := Option.some.inj hn
  constructor
  · exact Nat.mul_mod_left _ _
  · dsimp only
    omega

/-! ## Cells -/

/-- The types whose cells are read without loss. -/
def PgType.lossless : List PgType :=
  [.int2, .int4, .int8, .bool, .text, .varchar, .bpchar, .name, .uuid, .date, .timestamp,
    .timestamptz, .bytea]

/-- The value can be bound to a placeholder of the type, and what is sent is a cell of the value. -/
def SentBack (t : PgType) (v : Value) : Prop :=
  ∃ p bytes, Param.coerce? v t = some p ∧ p.encode? t = some (some bytes) ∧ cell? t bytes = some v

theorem cell?_of_width? {t : PgType} {width : ℕ} (ht : t.width? = some width) (bs : Bytes) :
    cell? t bs = (signed? width bs).map fun n => .int (Int64.ofInt n) := by
  cases t <;> cases ht <;> rfl

/-- An integer is sent in the width that it was read in. -/
theorem SentBack.of_integer {t : PgType} {width : ℕ} (ht : t.width? = some width) {bs : Bytes}
    {v : Value} (h : cell? t bs = some v) : SentBack t v := by
  rw [cell?_of_width? ht] at h
  obtain ⟨n, hn, rfl⟩ := Option.map_eq_some_iff.1 h
  have fits := fits_of_signed? hn
  obtain ⟨w, rfl⟩ := Param.exists_word (Param.Fits.of_width? ht fits)
  rw [Int64.ofInt_toInt]
  obtain ⟨width', bytes, ht', hbytes, hread⟩ := Param.sends_ofInteger ht fits
  obtain rfl : width = width' := Option.some.inj (ht.symm.trans ht')
  refine ⟨Param.ofInteger t w.toInt, bytes, ?_, hbytes, ?_⟩
  · exact (Param.coerce?_eq_some_iff ht rfl).2 ⟨w, rfl, fits, rfl⟩
  · rw [cell?_of_width? ht, hread, Option.map_some, Int64.ofInt_toInt]

/-- A value that is sent as what it holds is read back if its bytes are. -/
theorem SentBack.of_read {α : Type} {t : PgType} {make : α → Value} {read : Bytes → Option α}
    {write : α → Bytes} {param : α → Param} (ht : ∀ bs, cell? t bs = (read bs).map make)
    (hparam : ∀ a, Param.coerce? (make a) t = some (param a))
    (hwrite : ∀ a, (param a).encode? t = some (some (write a)))
    (back : ∀ bs a, read bs = some a → read (write a) = some a) {bs : Bytes} {v : Value}
    (h : cell? t bs = some v) : SentBack t v := by
  rw [ht] at h
  obtain ⟨a, ha, rfl⟩ := Option.map_eq_some_iff.1 h
  exact ⟨param a, write a, hparam a, hwrite a, by rw [ht, back bs a ha, Option.map_some]⟩

theorem sentBack_of_cell? {t : PgType} (ht : t ∈ PgType.lossless) {bs : Bytes} {v : Value}
    (h : cell? t bs = some v) : SentBack t v := by
  cases t with
  | int2 => exact .of_integer rfl h
  | int4 => exact .of_integer rfl h
  | int8 => exact .of_integer rfl h
  | bool =>
    exact .of_read (fun _ => rfl) (fun b => rfl) (fun b => rfl) (fun _ b _ => bool?_boolBytes b) h
  | text | varchar | bpchar | name =>
    exact .of_read (fun _ => rfl) (fun s => rfl) (fun s => rfl) (fun _ s _ => text?_textBytes s) h
  | uuid =>
    exact .of_read (fun _ => rfl) (fun u => rfl) (fun u => rfl) (fun _ u _ => uuid?_uuidBytes u) h
  | date =>
    exact .of_read (fun _ => rfl) (fun d => rfl) (fun d => rfl) (fun _ d _ => date?_dateBytes d) h
  | timestamp | timestamptz =>
    refine .of_read (fun _ => rfl) (fun t => rfl) (fun t => rfl) (fun bs t ht => ?_) h
    obtain ⟨whole, steady⟩ := steady_of_moment? ht
    exact moment?_momentBytes whole steady
  | bytea =>
    have bytes (bs : Bytes) : cell? .bytea bs = (some bs).map .bytes := rfl
    exact .of_read bytes (fun bs => rfl) (fun bs => rfl) (fun _ bs _ => rfl) h
  | oid | float4 | float8 | numeric | unknown | json | jsonb | other => simp [PgType.lossless] at ht

/-- A value that is read from a cell of one of these types becomes a parameter that the type takes,
and the bytes that are sent are a cell of the same value.  Null is sent as a cell without bytes,
which is null. -/
theorem cells_sent_back {t : PgType} (ht : t ∈ PgType.lossless) :
    (∀ bs v, cell? t bs = some v → SentBack t v) ∧
      ∃ p, Param.coerce? .null t = some p ∧ p.encode? t = some none ∧ cellValue t none = .null := by
  refine ⟨fun bs v h => sentBack_of_cell? ht h, .null (Param.nullKind t), rfl, ?_, rfl⟩
  have taken : t.takes (Param.nullKind t) = true := by
    revert t
    decide
  exact if_pos taken

/-- The last microsecond before the year 2000. -/
def lastMicrosecond : Moment := ⟨946684799, 999999000, by decide, by decide⟩

theorem lastMicrosecond_sent_back : PgType.timestamptz ∈ PgType.lossless ∧
    cell? .timestamptz (List.replicate 8 255) = some (.timestamp lastMicrosecond) ∧
    SentBack .timestamptz (.timestamp lastMicrosecond) ∧
    ∃ p, Param.coerce? .null .timestamptz = some p ∧ p.encode? .timestamptz = some none ∧
      cellValue .timestamptz none = .null := by
  have member : PgType.timestamptz ∈ PgType.lossless := by decide
  have read : moment? (List.replicate 8 255) = some lastMicrosecond := by decide +kernel
  have moments (bs : Bytes) : cell? .timestamptz bs = (moment? bs).map .timestamp := rfl
  have cell : cell? .timestamptz (List.replicate 8 255) = some (.timestamp lastMicrosecond) := by
    rw [moments, read, Option.map_some]
  obtain ⟨back, null⟩ := cells_sent_back member
  exact ⟨member, cell, back _ _ cell, null⟩

end FilterSql.Postgres
