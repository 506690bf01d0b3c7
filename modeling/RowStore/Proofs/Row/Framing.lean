/-
# Rows one behind the other in a buffer

Rows are not set apart in a buffer: where one ends and the next begins is a matter of the schema
alone.  So rows that were written one behind the other read back one by one, and what follows them is
left (`readEach_encode`).

From a buffer of any bytes, reading takes a whole row, or nothing, or stops at a field that holds no
value.  How far it has come by then is known (`ReadsAs`): all fields in front of that one have been
taken, and of the field itself the length if that is what exceeds the column, or else the whole of
it.
-/
import RowStore.Proofs.Page.Fields

namespace RowStore
namespace Row

/-! ## 1. Reading one row -/

/-- What reading a row of the schema can come to, and what is left of the buffer then. -/
inductive ReadsAs (schema : Schema) (buffer : Bytes) : Option Row × Bytes → Prop
  /-- The buffer is too short for a row.  Nothing is taken. -/
  | short (hlen : buffer.length < schema.width) : ReadsAs schema buffer (none, buffer)
  /-- All fields hold values.  The row is that of the bytes, and just its bytes are taken. -/
  | row {row : Row} (hlen : schema.width ≤ buffer.length)
      (hlegible : Legible schema.columns buffer) (hschema : row.schema = schema)
      (hnormal : Normal schema.columns buffer row.encode) :
      ReadsAs schema buffer (some row, buffer.drop schema.width)
  /-- A field holds no value.  What is taken ends there. -/
  | stopped {field taken : Nat} (hlen : schema.width ≤ buffer.length)
      (hstops : StopsAt schema.columns buffer field taken) :
      ReadsAs schema buffer (none, buffer.drop taken)

/-- **What reading a row comes to**, whatever the buffer holds. -/
theorem read_cases (schema : Schema) (buffer : Bytes) :
    ReadsAs schema buffer (read schema buffer) := by
  by_cases hshort : buffer.length < schema.width
  · rw [read, if_pos hshort]
    exact .short hshort
  · have hlen : schema.width ≤ buffer.length := Nat.not_lt.mp hshort
    by_cases hlegible : Legible schema.columns buffer
    · obtain ⟨row, hread, hschema, hnormal⟩ := read_of_legible hlen hlegible
      rw [hread]
      exact .row hlen hlegible hschema hnormal
    · obtain ⟨field, taken, hstops, hread⟩ := read_of_not_legible hlen hlegible
      rw [hread]
      exact .stopped hlen hstops

/-! ## 2. Reading rows one behind the other -/

/-- Reads so many rows, each from where the one before it has left the buffer; second, what is left
of the buffer in the end. -/
def readEach (schema : Schema) : (count : Nat) → Bytes → List (Option Row) × Bytes
  | 0, buffer => ([], buffer)
  | count + 1, buffer =>
    let (row, rest) := read schema buffer
    let (rows, rest) := readEach schema count rest
    (row :: rows, rest)

/-- Rows that are written one behind the other read back in order. -/
theorem readEach_encode {schema : Schema} {rows : List Row}
    (hschema : ∀ row ∈ rows, row.schema = schema) (rest : Bytes) :
    readEach schema rows.length (rows.flatMap encode ++ rest) =
      (rows.map fun row => some (row.movedTo none), rest) := by
  induction rows with
  | nil => rfl
  | cons row rows ih =>
    have hrest := ih fun r hr => hschema r (List.mem_cons_of_mem _ hr)
    have hread := read_encode row (rows.flatMap encode ++ rest)
    rw [hschema row List.mem_cons_self] at hread
    rw [List.flatMap_cons, List.append_assoc, List.length_cons, readEach, hread]
    simp only [hrest, List.map_cons]

/-- **Rows in a buffer** are told apart by the schema alone.  Rows of a schema that are written one
behind the other read back one by one, as they were but for the places where they were stored, and
what follows them is left as it is.  From any buffer, reading a row takes just the row, or nothing if
the buffer is shorter; or it stops at the first field that holds no value, with the fields in front of
it taken and of the field itself the length, if that is what exceeds the column, or else the whole. -/
theorem framing (schema : Schema) :
    (∀ rows : List Row, (∀ row ∈ rows, row.schema = schema) → ∀ rest,
      readEach schema rows.length (rows.flatMap encode ++ rest) =
        (rows.map fun row => some (row.movedTo none), rest)) ∧
    ∀ buffer, ReadsAs schema buffer (read schema buffer) :=
  ⟨fun _ hrows rest => readEach_encode hrows rest, read_cases schema⟩

/-- Two rows and two bytes behind them; and a row with three bytes of text in a column for two, which
is left behind the length of the text. -/
theorem framing_twoRows :
    ∃ (schema : Schema) (first second : Row), first.values = [.int (-1), .text "é"] ∧
      second.values = [.int 7, .text ""] ∧ (∀ row ∈ [first, second], row.schema = schema) ∧
      readEach schema 2 ([first, second].flatMap encode ++ [9, 0]) =
        ([some first, some second], [9, 0]) ∧
      read schema [1, 0, 0, 0, 3, 0, 0, 0, 97, 98] = (none, [97, 98]) ∧
      ReadsAs schema [1, 0, 0, 0, 3, 0, 0, 0, 97, 98] (none, [97, 98]) := by
  let schema : Schema := ⟨[⟨"n", .int⟩, ⟨"s", .text 2⟩]⟩
  let first : Row := ⟨schema, [.int (-1), .text "é"], none, by decide⟩
  let second : Row := ⟨schema, [.int 7, .text ""], none, by decide⟩
  have hschema : ∀ row ∈ [first, second], row.schema = schema := by simp [first, second]
  have hread : read schema [1, 0, 0, 0, 3, 0, 0, 0, 97, 98] = (none, [97, 98]) := by cbv
  obtain ⟨hwritten, hcases⟩ := framing schema
  exact ⟨schema, first, second, rfl, rfl, hschema, hwritten _ hschema [9, 0], hread,
    hread ▸ hcases _⟩

end Row
end RowStore
