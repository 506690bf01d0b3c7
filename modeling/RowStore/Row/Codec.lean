/-
# Rows as bytes

A row is stored as its values one after another, and takes the width of its schema whatever
they are.  Reading looks first whether the buffer holds a whole row, and takes nothing from it
otherwise; it stops at the first column that does not hold a value, where that column's
reading left the buffer.

* `Row.length_encode`: a row takes the width of its schema;
* `Row.read_encode`: a written row reads back, whatever follows it.
-/
import RowStore.Row
import RowStore.Value.Codec

namespace RowStore
namespace Row

/-! ## 1. Writing -/

/-- The bytes of the values in the columns.  Values that do not fit leave none. -/
def encodeValues (columns : List Column) (values : List Value) : Bytes :=
  (columns.zip values).flatMap fun (c, v) => (v.encode? c.type).getD []

/-- The bytes of a row. -/
def encode (row : Row) : Bytes := encodeValues row.schema.columns row.values

theorem exists_encode_of_fits {v : Value} {type : DataType} (h : v.fits type) :
    ∃ bytes, v.encode? type = some bytes :=
  Option.isSome_iff_exists.mp (by rw [Value.isSome_encode?, h])

theorem length_encodeValues {columns : List Column} {values : List Value}
    (h : Schema.admits.go columns values) :
    (encodeValues columns values).length = Schema.width.go columns := by
  fun_induction Schema.admits.go columns values with
  | case1 => rfl
  | case2 c cs v vs ih =>
    simp only [Bool.and_eq_true] at h
    obtain ⟨bytes, hb⟩ := exists_encode_of_fits h.1
    have := ih h.2
    simp only [encodeValues] at this ⊢
    simp [hb, Value.length_encode hb, this, Schema.width.go]
  | case3 => simp at h

theorem length_encode (row : Row) : row.encode.length = row.schema.width :=
  length_encodeValues row.fits

/-! ## 2. Reading -/

/-- Reads a value for each column, in turn; second, what is left of the buffer. -/
def readValues : List Column → Bytes → Option (List Value) × Bytes
  | [], buffer => (some [], buffer)
  | c :: cs, buffer =>
    match Value.read c.type buffer with
    | (none, rest) => (none, rest)
    | (some v, rest) => match readValues cs rest with
      | (none, rest) => (none, rest)
      | (some vs, rest) => (some (v :: vs), rest)

theorem admits_of_readValues {columns : List Column} {buffer rest : Bytes} {values : List Value}
    (h : readValues columns buffer = (some values, rest)) : Schema.admits.go columns values := by
  fun_induction readValues columns buffer generalizing values rest with
  | case1 => simp_all [Schema.admits.go]
  | case2 => simp at h
  | case3 => simp at h
  | case4 c cs buffer v mid hv vs rest' hvs ih =>
    simp only [Prod.mk.injEq, Option.some.injEq] at h
    rw [← h.1]
    simp [Schema.admits.go, Value.fits_of_read hv, ih hvs]

/-- Reads a row of the schema from the front of a buffer; second, what is left of it. -/
def read (schema : Schema) (buffer : Bytes) : Option Row × Bytes :=
  if buffer.length < schema.width then (none, buffer)
  else match h : readValues schema.columns buffer with
    | (none, rest) => (none, rest)
    | (some values, rest) => (some ⟨schema, values, none, admits_of_readValues h⟩, rest)

theorem readValues_encodeValues {columns : List Column} {values : List Value}
    (h : Schema.admits.go columns values) (rest : Bytes) :
    readValues columns (encodeValues columns values ++ rest) = (some values, rest) := by
  fun_induction Schema.admits.go columns values with
  | case1 => rfl
  | case2 c cs v vs ih =>
    simp only [Bool.and_eq_true] at h
    obtain ⟨bytes, hb⟩ := exists_encode_of_fits h.1
    have := ih h.2
    simp only [encodeValues] at this ⊢
    simp only [List.zip_cons_cons, List.flatMap_cons, hb, Option.getD_some, List.append_assoc,
      readValues, Value.read_encode hb, this]
  | case3 => simp at h

theorem read_encode (row : Row) (rest : Bytes) :
    read row.schema (row.encode ++ rest) = (some (row.movedTo none), rest) := by
  have hlen : ¬ (row.encode ++ rest).length < row.schema.width := by simp [length_encode]
  simp only [read, if_neg hlen]
  split
  · rename_i h
    simp [encode, readValues_encodeValues row.fits] at h
  · rename_i h
    simp only [encode, readValues_encodeValues row.fits, Prod.mk.injEq, Option.some.injEq] at h
    obtain ⟨rfl, rfl⟩ := h
    rfl

end Row
end RowStore
