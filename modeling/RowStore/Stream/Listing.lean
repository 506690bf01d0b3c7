/-
# A list as a stream

A stream over rows that are at hand.  Its state is what is left of them, if it is open.
-/
import RowStore.Stream.Basic

namespace RowStore
namespace Listing

/-- The rows that are left; `none` while the stream is closed. -/
abbrev State := Option (List Row)

/-- The rows must all have the schema. -/
def check (schema : Schema) (rows : List Row) : Except Error Unit :=
  match rows.find? (·.schema ≠ schema) with
  | some row => .error (.schema (.notOfListing row.values))
  | none => .ok ()

def next : StreamM State (Option Row) := do
  match ← StreamM.getState with
  | none => throw .notOpen
  | some [] => return none
  | some (row :: rest) =>
    StreamM.setState (some rest)
    return some row

def rewind (rows : List Row) : StreamM State Unit := do
  match ← StreamM.getState with
  | none => throw .notOpen
  | some _ => StreamM.setState (some rows)

def stream (schema : Schema) (rows : List Row) : RowStream State where
  schema := schema
  bound _ _ := rows.length
  start := StreamM.setState (some rows)
  next := next
  rewind := rewind rows
  close _ := none

end Listing
end RowStore
