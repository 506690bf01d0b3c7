/-
# Scanning a table

A scan hands out the rows of a table by page and slot.  It fetches one page at a time and keeps
a copy of its rows.  At the end of a page it looks anew how many pages the table has, so it comes
to pages that were added while it ran.
-/
import RowStore.Stream.Basic

namespace RowStore
namespace Scan

structure Cursor where
  /-- The page to fetch when the rows run out. -/
  nextPage : Nat
  /-- The rows that are left of the current page. -/
  rows : List Row

abbrev State := Option Cursor

/-- No page of the table will come to lie behind this number while the table is scanned: a page
that is written back can lengthen it, but that page is in the cache already. -/
def pageBound (db : Database) (ref : TableRef) : Nat :=
  match db.files[ref.index]? with
  | none => 0
  | some f => db.pool.cache.toList.foldl (fun n (id, _) => max n (id.number + 1)) f.pageCount

/-- Hands out the next row, fetching up to `fuel - 1` pages for it. -/
def advance (ref : TableRef) : (fuel : Nat) → Cursor → StreamM State (Option Row)
  | 0, _ => return none
  | fuel + 1, cursor => do
    match cursor.rows with
    | row :: rest =>
      StreamM.setState (some { cursor with rows := rest })
      return some row
    | [] =>
      let f ← StreamM.onDatabase (Database.file ref)
      if f.pageCount ≤ cursor.nextPage then return none
      let frame ← StreamM.onDatabase (Database.fetch ⟨f.id, cursor.nextPage⟩)
      let cursor := ⟨cursor.nextPage + 1, frame.page.rows⟩
      StreamM.setState (some cursor)
      advance ref fuel cursor

def next (ref : TableRef) : StreamM State (Option Row) := do
  match ← StreamM.getState with
  | none => throw .notOpen
  | some cursor => advance ref (pageBound (← StreamM.getDatabase) ref + 1) cursor

def rewind : StreamM State Unit := do
  match ← StreamM.getState with
  | none => throw .notOpen
  | some _ => StreamM.setState (some ⟨0, []⟩)

/-- The scan of a table file whose rows have the schema.  A page has no more rows than slots can
be numbered. -/
def stream (ref : TableRef) (schema : Schema) : RowStream State where
  schema := schema
  bound state db := (state.map (·.rows.length)).getD 0 + pageBound db ref * 65536
  start := StreamM.setState (some ⟨0, []⟩)
  next := next ref
  rewind := rewind
  close _ := none

end Scan
end RowStore
