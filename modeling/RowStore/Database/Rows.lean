/-
# Rows in tables

A row goes into the first page of its table that has a free slot, or else into a new page at
the end.  The pages are looked at in order, through the pool.  If the row cannot be placed on
the new page, the page is taken back.

A row is removed from the page that its place names.
-/
import RowStore.Database.Pool

namespace RowStore
namespace Database

/-! ## 1. Inserting -/

/-- Stores the row on a page that is in the cache. -/
def placeOn (id : PageId) (page : Page) (row : Row) : DbM Row := do
  let (page, row) ← attempt (page.insert row)
  modifyPage id fun _ => page.mark true
  return row

/-- Stores the row on the first of the pages that has a free slot. -/
def placeOnFirst (table : TableId) (row : Row) : List Nat → DbM (Option (PageId × Row))
  | [] => return none
  | number :: numbers => do
    let id : PageId := ⟨table, number⟩
    let frame ← fetch id
    if 0 < frame.page.freeCount then
      let row ← placeOn id frame.page row
      return some (id, row)
    else placeOnFirst table row numbers

/-- Stores the row on a new page, which is taken back if that fails. -/
def placeOnNew (ref : TableRef) (row : Row) : DbM (PageId × Row) := do
  let id ← appendPage ref
  try
    let frame ← fetch id
    let row ← placeOn id frame.page row
    return (id, row)
  catch e =>
    drop id
    try removeLastPage ref id catch _ => pure ()
    throw e

/-- Stores the row in the table; first, the page that was changed. -/
def insertInFile (ref : TableRef) (row : Row) : DbM (PageId × Row) := do
  let f ← file ref
  if row.schema ≠ f.layout.schema then throw (.schema (.notOfTable row.values f.id))
  match ← placeOnFirst f.id row (List.range f.pageCount) with
  | some placed => return placed
  | none => placeOnNew ref row

/-- Stores the row in a table of the catalog. -/
def insert (table : TableId) (row : Row) : DbM (PageId × Row) := do
  insertInFile (← tableOf table) row

/-- Stores a row of the values in a table, under the schema. -/
def insertValues (table : TableId) (schema : Schema) (values : List Value) :
    DbM (PageId × Row) := do
  insert table (← attempt (Row.make schema values))

/-- Writes a page of the rows to a place of the table, whatever stood there. -/
def writeRows (ref : TableRef) (number : Nat) (rows : List (List Value)) : DbM Unit := do
  let f ← file ref
  writePage ref (← attempt ((Page.empty ⟨f.id, number⟩ f.layout).insertAll rows))

/-! ## 2. Deleting -/

/-- Removes the row from its page in the table. -/
def deleteInFile (ref : TableRef) (row : Row) : DbM (PageId × Row) := do
  match row.place with
  | none => throw .notStored
  | some place =>
    let id := place.page
    let f ← file ref
    if id.table ≠ f.id then throw (.notOnPage id)
    if f.pageCount ≤ id.number then throw (.noSuchPage id)
    let frame ← fetch id
    let (page, row) ← attempt (frame.page.delete row)
    modifyPage id fun _ => page.mark true
    return (id, row)

/-- Removes the row from the table of the catalog that its place names. -/
def delete (row : Row) : DbM (PageId × Row) := do
  match row.place with
  | none => throw .notStored
  | some place => deleteInFile (← tableOf place.page.table) row

end Database
end RowStore
