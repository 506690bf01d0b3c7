/-
# Which bytes of a row mean something

Reading a row looks at the four bytes of each number, and for each text at its length and at so many
bytes behind it; what is left of a text's column is skipped.  This module says so without the
reader: from a run of bytes as long as a row,

* `Row.Legible` is what makes it a row: every length is within its column and is followed by the
  bytes of a text;
* `Row.Kept` are the positions that count;
* `Row.StopsAt` says which field makes it none, and how far a reader has come when that is known.

`Row.readValues_of_legible` and `Row.readValues_of_not_legible` say that the reader takes the
legible rows and no others, and that the values it takes, when they are written again, agree with
what was read at the positions that count and are zero at all others.
-/
import RowStore.Row.Codec

namespace RowStore

/-! ## 1. One field -/

namespace DataType

/-- The number that the first four bytes of a field stand for, the least significant first.  In a
column of texts it is the length of the text. -/
def stated (field : Bytes) : Nat := (field.take 4).foldr (fun byte n => byte.toNat + 256 * n) 0

/-- The field holds a value of the type.  Any four bytes are a number.  A text is no longer than the
column allows, and its bytes are well formed; what stands behind them does not matter. -/
def Legible : DataType → Bytes → Prop
  | int, _ => True
  | text limit, field =>
    stated field ≤ limit.toNat ∧ ∃ content, Utf8.encode content = (field.drop 4).take (stated field)

/-- The field holds no value of the type, and so many bytes of it are taken until that is known. -/
inductive Spoiled : DataType → Bytes → Nat → Prop
  /-- The length exceeds the column.  The four bytes of the length have been taken. -/
  | length {limit : UInt16} {field : Bytes} (h : limit.toNat < stated field) :
      Spoiled (text limit) field 4
  /-- The bytes of the text are those of no text.  The whole field has been taken. -/
  | text {limit : UInt16} {field : Bytes} (hle : stated field ≤ limit.toNat)
      (h : ∀ content, Utf8.encode content ≠ (field.drop 4).take (stated field)) :
      Spoiled (text limit) field (width (text limit))

/-- How many bytes of a field mean something: those of the number, or those of the length and of the
text. -/
def filled : DataType → Bytes → Nat
  | int, _ => 4
  | text _, field => 4 + stated field

theorem stated_of_read {field rest : Bytes} {w : UInt32} (h : Word.read field = some (w, rest)) :
    stated field = w.toNat := by
  match field, h with
  | a :: b :: c :: d :: r, h =>
    simp only [Word.read, Option.some.injEq, Prod.mk.injEq] at h
    obtain ⟨rfl, rfl⟩ := h
    have ha : a.toNat < 256 := a.toNat_lt
    have hb : b.toNat < 256 := b.toNat_lt
    have hc : c.toNat < 256 := c.toNat_lt
    have hd : d.toNat < 256 := d.toNat_lt
    simp only [stated, List.take_succ_cons, List.take_zero, List.foldr_cons, List.foldr_nil,
      Word.ofBytes, UInt32.toNat_ofNat']
    omega

/-- The meaningful bytes of a field that holds a value are bytes of the field. -/
theorem Legible.filled_le {type : DataType} {field : Bytes} (h : type.Legible field) :
    type.filled field ≤ type.width := by
  cases type with
  | int => exact Nat.le_refl 4
  | text limit => exact Nat.add_le_add_left h.1 4

end DataType

namespace Value

/-- A field as wide as its column starts with a word. -/
theorem exists_read_word {type : DataType} {field : Bytes} (hlen : type.width ≤ field.length) :
    ∃ w rest, Word.read field = some (w, rest) ∧ field = Word.encode w ++ rest := by
  have hfour := type.four_le_width
  cases hread : Word.read field with
  | none =>
    have := Word.read_eq_none_iff.mp hread
    omega
  | some word => exact ⟨word.1, word.2, rfl, Word.encode_of_read hread⟩

/-- **A field that holds a value is read**, up to the end of the column; written again, the value
gives the meaningful bytes and then zeros. -/
theorem read_of_legible {type : DataType} {field : Bytes} (hlen : type.width ≤ field.length)
    (h : type.Legible field) :
    ∃ v, Value.read type field = (some v, field.drop type.width) ∧
      v.encode? type = some (field.take (type.filled field) ++
        List.replicate (type.width - type.filled field) 0) := by
  obtain ⟨w, rest, hread, hfield⟩ := exists_read_word hlen
  have hword : (Word.encode w).length = 4 := Word.length_encode w
  have hrest : field.drop 4 = rest := by rw [hfield, List.drop_left' hword]
  cases type with
  | int =>
    refine ⟨int w.toInt32, ?_, ?_⟩
    · simp only [Value.read, if_neg (Nat.not_lt.mpr hlen), hread]
      simp only [DataType.width, hrest]
    · have hback : w.toInt32.toUInt32 = w := by simp
      have htake : field.take 4 = Word.encode w := by rw [hfield, List.take_left' hword]
      simp only [encode?, hback, DataType.filled, DataType.width, htake, Nat.sub_self,
        List.replicate_zero, List.append_nil]
  | text limit =>
    obtain ⟨hle, content, hcontent⟩ := h
    have hstated := DataType.stated_of_read hread
    rw [hrest, hstated] at hcontent
    rw [hstated] at hle
    have hlimit : limit.toNat ≤ rest.length := by
      rw [hfield, List.length_append, hword, DataType.width] at hlen
      omega
    have hsize : Utf8.size content = w.toNat := by
      rw [← Utf8.length_encode, hcontent, List.length_take]
      omega
    refine ⟨text content, ?_, ?_⟩
    · have hend : field.drop (DataType.text limit).width = rest.drop limit.toNat := by
        rw [← hrest, List.drop_drop]
        rfl
      simp only [Value.read, if_neg (Nat.not_lt.mpr hlen), hread, if_neg (Nat.not_lt.mpr hle),
        ← hcontent, Utf8.decode_encode, Option.map_some, hend]
    · have htake : field.take (4 + w.toNat) = Word.encode w ++ Utf8.encode content := by
        rw [hfield, ← hword, List.take_length_add_append, hcontent]
      have hback : UInt32.ofNat w.toNat = w := UInt32.ofNat_toNat
      have hpad : 4 + limit.toNat - (4 + w.toNat) = limit.toNat - w.toNat := by omega
      simp only [encode?, hsize, hle, if_true, hback, DataType.filled, hstated, DataType.width,
        htake, hpad]

/-- **A field that holds none is not**, and what is taken of it says why. -/
theorem read_of_not_legible {type : DataType} {field : Bytes} (hlen : type.width ≤ field.length)
    (h : ¬ type.Legible field) :
    ∃ taken, type.Spoiled field taken ∧ Value.read type field = (none, field.drop taken) := by
  obtain ⟨w, rest, hread, hfield⟩ := exists_read_word hlen
  have hrest : field.drop 4 = rest := by rw [hfield, List.drop_left' (Word.length_encode w)]
  have hstated := DataType.stated_of_read hread
  cases type with
  | int => exact absurd trivial h
  | text limit =>
    by_cases hle : w.toNat ≤ limit.toNat
    · have hbad : ∀ content, Utf8.encode content ≠ (field.drop 4).take (DataType.stated field) :=
        fun content hcontent => h ⟨by rwa [hstated], content, hcontent⟩
      have hnone : Utf8.decode? (rest.take w.toNat) = none := by
        rw [Option.eq_none_iff_forall_ne_some]
        intro content hcontent
        refine hbad content ?_
        rw [hrest, hstated]
        exact Utf8.encode_of_decode hcontent
      have hend : field.drop (DataType.text limit).width = rest.drop limit.toNat := by
        rw [← hrest, List.drop_drop]
        rfl
      refine ⟨_, .text (by rwa [hstated]) hbad, ?_⟩
      simp only [Value.read, if_neg (Nat.not_lt.mpr hlen), hread, if_neg (Nat.not_lt.mpr hle),
        hnone, Option.map_none, hend]
    · have hlong : limit.toNat < w.toNat := Nat.not_le.mp hle
      refine ⟨4, .length (by rwa [hstated]), ?_⟩
      simp only [Value.read, if_neg (Nat.not_lt.mpr hlen), hread, if_pos hlong, hrest]

end Value

/-! ## 2. The fields of a row -/

namespace Row

/-- Where the field of a column starts in a row. -/
def offset (columns : List Column) (field : Nat) : Nat := Schema.width.go (columns.take field)

/-- Every field holds a value. -/
def Legible (columns : List Column) (bytes : Bytes) : Prop :=
  ∀ (field : Nat) (column : Column), columns[field]? = some column →
    column.type.Legible (bytes.drop (offset columns field))

/-- The fields in front of this one hold values, and this one does not; so many bytes have been taken
when that is known. -/
structure StopsAt (columns : List Column) (bytes : Bytes) (field taken : Nat) : Prop where
  before : ∀ (i : Nat) (c : Column), i < field → columns[i]? = some c →
    c.type.Legible (bytes.drop (offset columns i))
  spoiled : ∃ (column : Column) (part : Nat), columns[field]? = some column ∧
    column.type.Spoiled (bytes.drop (offset columns field)) part ∧
      taken = offset columns field + part

/-- The position is among the meaningful bytes of a field. -/
def Kept (columns : List Column) (bytes : Bytes) (pos : Nat) : Prop :=
  ∃ (field : Nat) (column : Column), columns[field]? = some column ∧ offset columns field ≤ pos ∧
    pos < offset columns field + column.type.filled (bytes.drop (offset columns field))

@[simp] theorem offset_zero (columns : List Column) : offset columns 0 = 0 := by
  rw [offset, List.take_zero, Schema.width.go]

@[simp] theorem offset_succ (column : Column) (columns : List Column) (field : Nat) :
    offset (column :: columns) (field + 1) = column.type.width + offset columns field := by
  rw [offset, List.take_succ_cons, Schema.width.go, offset]

theorem legible_cons {column : Column} {columns : List Column} {bytes : Bytes} :
    Legible (column :: columns) bytes ↔
      column.type.Legible bytes ∧ Legible columns (bytes.drop column.type.width) := by
  constructor
  · intro h
    constructor
    · have hhead := h 0 column rfl
      rwa [offset_zero, List.drop_zero] at hhead
    · intro field c hc
      have hfield := h (field + 1) c hc
      rwa [offset_succ, ← List.drop_drop] at hfield
  · rintro ⟨hhead, htail⟩ field c hc
    cases field with
    | zero =>
      cases hc
      rwa [offset_zero, List.drop_zero]
    | succ field =>
      have hfield := htail field c hc
      rwa [List.drop_drop, ← offset_succ] at hfield

/-- The first field stops the reading. -/
theorem StopsAt.head {column : Column} {columns : List Column} {bytes : Bytes} {taken : Nat}
    (h : column.type.Spoiled bytes taken) : StopsAt (column :: columns) bytes 0 taken where
  before i c hi := absurd hi (Nat.not_lt_zero i)
  spoiled := ⟨column, taken, rfl, by rwa [offset_zero, List.drop_zero],
    by rw [offset_zero, Nat.zero_add]⟩

/-- Behind a first field that holds a value, another one does. -/
theorem StopsAt.tail {column : Column} {columns : List Column} {bytes : Bytes} {field taken : Nat}
    (hhead : column.type.Legible bytes)
    (h : StopsAt columns (bytes.drop column.type.width) field taken) :
    StopsAt (column :: columns) bytes (field + 1) (column.type.width + taken) where
  before i c hi hc := by
    cases i with
    | zero =>
      cases hc
      rwa [offset_zero, List.drop_zero]
    | succ i =>
      have hfield := h.before i c (Nat.lt_of_succ_lt_succ hi) hc
      rwa [List.drop_drop, ← offset_succ] at hfield
  spoiled := by
    obtain ⟨c, part, hc, hspoiled, rfl⟩ := h.spoiled
    rw [List.drop_drop, ← offset_succ] at hspoiled
    exact ⟨c, part, hc, hspoiled, by rw [offset_succ, Nat.add_assoc]⟩

/-- In front, the positions that count are those of the first field. -/
theorem kept_cons_of_lt {column : Column} {columns : List Column} {bytes : Bytes} {pos : Nat}
    (hpos : pos < column.type.width) :
    Kept (column :: columns) bytes pos ↔ pos < column.type.filled bytes := by
  constructor
  · rintro ⟨field, c, hc, hstart, hend⟩
    cases field with
    | zero =>
      cases hc
      rwa [offset_zero, List.drop_zero, Nat.zero_add] at hend
    | succ field =>
      rw [offset_succ] at hstart
      omega
  · intro h
    refine ⟨0, column, rfl, ?_, ?_⟩
    · rw [offset_zero]
      exact Nat.zero_le pos
    · rwa [offset_zero, List.drop_zero, Nat.zero_add]

/-- Behind the first field, they are those of the others. -/
theorem kept_cons_of_le {column : Column} {columns : List Column} {bytes : Bytes} {pos : Nat}
    (hfilled : column.type.filled bytes ≤ column.type.width) (hpos : column.type.width ≤ pos) :
    Kept (column :: columns) bytes pos ↔
      Kept columns (bytes.drop column.type.width) (pos - column.type.width) := by
  constructor
  · rintro ⟨field, c, hc, hstart, hend⟩
    cases field with
    | zero =>
      cases hc
      rw [offset_zero, List.drop_zero] at hend
      omega
    | succ field =>
      rw [offset_succ] at hstart
      rw [offset_succ, ← List.drop_drop] at hend
      exact ⟨field, c, hc, by omega, by omega⟩
  · rintro ⟨field, c, hc, hstart, hend⟩
    refine ⟨field + 1, c, hc, ?_, ?_⟩
    · rw [offset_succ]
      omega
    · rw [offset_succ, ← List.drop_drop]
      omega

/-- What counts in a row is inside the row. -/
theorem kept_lt {columns : List Column} {bytes : Bytes} {pos : Nat} (h : Legible columns bytes)
    (hkept : Kept columns bytes pos) : pos < Schema.width.go columns := by
  obtain ⟨field, column, hc, -, hend⟩ := hkept
  have hfilled := (h field column hc).filled_le
  obtain ⟨hfield, rfl⟩ := List.getElem?_eq_some_iff.mp hc
  have hwidth := Schema.width_go_append (columns.take field) (columns.drop field)
  rw [List.take_append_drop, List.drop_eq_getElem_cons hfield, Schema.width.go] at hwidth
  rw [offset] at hend hfilled
  omega

/-- The bytes of the values are the bytes that were read where these count, and zero elsewhere. -/
def Normal (columns : List Column) (bytes written : Bytes) : Prop :=
  ∀ pos < Schema.width.go columns,
    (Kept columns bytes pos → written[pos]? = bytes[pos]?) ∧
      (¬ Kept columns bytes pos → written[pos]? = some 0)

/-- The first field is in its normal form, and the others are. -/
theorem normal_cons {column : Column} {columns : List Column} {bytes written : Bytes}
    (hlen : column.type.width ≤ bytes.length)
    (hfilled : column.type.filled bytes ≤ column.type.width)
    (h : Normal columns (bytes.drop column.type.width) written) :
    Normal (column :: columns) bytes (bytes.take (column.type.filled bytes) ++
      List.replicate (column.type.width - column.type.filled bytes) 0 ++ written) := by
  have htake : (bytes.take (column.type.filled bytes)).length = column.type.filled bytes := by
    rw [List.length_take]
    omega
  have hhead : (bytes.take (column.type.filled bytes) ++
      List.replicate (column.type.width - column.type.filled bytes) 0).length =
        column.type.width := by
    rw [List.length_append, htake, List.length_replicate]
    omega
  intro pos hpos
  by_cases hin : pos < column.type.width
  · rw [kept_cons_of_lt hin, List.getElem?_append_left (by rwa [hhead])]
    constructor
    · intro hkept
      rw [List.getElem?_append_left (by rwa [htake]), List.getElem?_take_of_lt hkept]
    · intro hkept
      rw [List.getElem?_append_right (by rw [htake]; omega), htake,
        List.getElem?_replicate_of_lt (by omega)]
  · have hle : column.type.width ≤ pos := Nat.not_lt.mp hin
    have hback : (bytes.drop column.type.width)[pos - column.type.width]? = bytes[pos]? := by
      rw [List.getElem?_drop]
      congr 1
      omega
    rw [kept_cons_of_le hfilled hle, List.getElem?_append_right (by rwa [hhead]), hhead, ← hback]
    refine h _ ?_
    rw [Schema.width.go] at hpos
    omega

/-! ## 3. Reading a row -/

/-- **Fields that hold values are read**, and the values are written again in the normal form.  By
induction on the columns, each of which takes its own bytes off the front. -/
theorem readValues_of_legible {columns : List Column} {bytes : Bytes}
    (hlen : Schema.width.go columns ≤ bytes.length) (h : Legible columns bytes) :
    ∃ values, readValues columns bytes = (some values, bytes.drop (Schema.width.go columns)) ∧
      Normal columns bytes (encodeValues columns values) := by
  induction columns generalizing bytes with
  | nil =>
    refine ⟨[], rfl, ?_⟩
    intro pos hpos
    exact absurd hpos (Nat.not_lt_zero pos)
  | cons column columns ih =>
    rw [Schema.width.go] at hlen
    obtain ⟨hhead, htail⟩ := legible_cons.mp h
    have hwidth : column.type.width ≤ bytes.length := by omega
    have hrest : Schema.width.go columns ≤ (bytes.drop column.type.width).length := by
      rw [List.length_drop]
      omega
    obtain ⟨v, hv, hencode⟩ := Value.read_of_legible hwidth hhead
    obtain ⟨vs, hvs, hnormal⟩ := ih hrest htail
    refine ⟨v :: vs, ?_, ?_⟩
    · simp only [readValues, hv, hvs, List.drop_drop, Schema.width.go]
    · have hwritten : encodeValues (column :: columns) (v :: vs) =
          bytes.take (column.type.filled bytes) ++
            List.replicate (column.type.width - column.type.filled bytes) 0 ++
              encodeValues columns vs := by
        simp only [encodeValues, List.zip_cons_cons, List.flatMap_cons, hencode, Option.getD_some]
      rw [hwritten]
      exact normal_cons hwidth hhead.filled_le hnormal

/-- **If one of them holds none, nothing is read**, and the first such field is where the reading
stops.  By induction on the columns again. -/
theorem readValues_of_not_legible {columns : List Column} {bytes : Bytes}
    (hlen : Schema.width.go columns ≤ bytes.length) (h : ¬ Legible columns bytes) :
    ∃ field taken, StopsAt columns bytes field taken ∧
      readValues columns bytes = (none, bytes.drop taken) := by
  induction columns generalizing bytes with
  | nil =>
    have hempty : Legible [] bytes := by
      intro field column hc
      cases hc
    exact absurd hempty h
  | cons column columns ih =>
    rw [Schema.width.go] at hlen
    have hwidth : column.type.width ≤ bytes.length := by omega
    by_cases hhead : column.type.Legible bytes
    · have htail : ¬ Legible columns (bytes.drop column.type.width) :=
        fun htail => h (legible_cons.mpr ⟨hhead, htail⟩)
      obtain ⟨v, hv, -⟩ := Value.read_of_legible hwidth hhead
      obtain ⟨field, taken, hstops, hrest⟩ := ih (by rw [List.length_drop]; omega) htail
      exact ⟨field + 1, _, hstops.tail hhead, by simp only [readValues, hv, hrest, List.drop_drop]⟩
    · obtain ⟨taken, hspoiled, hread⟩ := Value.read_of_not_legible hwidth hhead
      exact ⟨0, taken, .head hspoiled, by simp only [readValues, hread]⟩

/-- A run of bytes with a value in each field is a row of the schema, and just its bytes are taken. -/
theorem read_of_legible {schema : Schema} {bytes : Bytes} (hlen : schema.width ≤ bytes.length)
    (h : Legible schema.columns bytes) :
    ∃ row, Row.read schema bytes = (some row, bytes.drop schema.width) ∧ row.schema = schema ∧
      Normal schema.columns bytes row.encode := by
  obtain ⟨values, hvalues, hnormal⟩ := readValues_of_legible hlen h
  rw [Row.read, if_neg (Nat.not_lt.mpr hlen)]
  split
  · rename_i hnone
    rw [hvalues] at hnone
    cases hnone
  · rename_i hsome
    rw [hvalues] at hsome
    cases hsome
    exact ⟨_, rfl, rfl, hnormal⟩

/-- One with a field that holds no value is none, and is taken up to the first such field. -/
theorem read_of_not_legible {schema : Schema} {bytes : Bytes} (hlen : schema.width ≤ bytes.length)
    (h : ¬ Legible schema.columns bytes) :
    ∃ field taken, StopsAt schema.columns bytes field taken ∧
      Row.read schema bytes = (none, bytes.drop taken) := by
  obtain ⟨field, taken, hstops, hrest⟩ := readValues_of_not_legible hlen h
  refine ⟨field, taken, hstops, ?_⟩
  rw [Row.read, if_neg (Nat.not_lt.mpr hlen)]
  split
  · rename_i hnone
    rw [hrest] at hnone
    cases hnone
    rfl
  · rename_i hsome
    rw [hrest] at hsome
    cases hsome

end Row
end RowStore
