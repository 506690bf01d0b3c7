/-
# Tables without a cache and without a disk

The reference for the database: a table is a list of pages, a page a list of slots, and a slot
holds a row or nothing.  Rows are kept without their places; a place is where a row is found.

`Request` is what one can ask of a database or of the reference, `Answer` what comes back.  The
two sides answer the same requests, the database by its own operations (`Database.answer`) and the
reference by what the lists say (`Reference.answer`).
-/
import RowStore.Stream.Scan
import RowStore.Proofs.Stream.Replays
import Mathlib.Logic.Function.Basic

namespace RowStore

/-- What the slots of a page hold, rows without their places. -/
abbrev Sheet := List (Option Row)

namespace Reference

/-! ## 1. Tables -/

structure Table where
  schema : Schema
  /-- The slots of a page. -/
  slots : Nat
  pages : List Sheet

namespace Table

/-- Every place of the table, by page and then by slot. -/
def places (t : Table) : List (Nat × Nat) :=
  (List.range t.pages.length).flatMap fun page => (List.range t.slots).map fun slot => (page, slot)

/-- The row at a place. -/
def row? (t : Table) (page slot : Nat) : Option Row := (t.pages[page]?.bind (·[slot]?)).join

/-- The first place without a row. -/
def firstFree? (t : Table) : Option (Nat × Nat) :=
  t.places.find? fun (page, slot) => (t.row? page slot).isNone

/-- The table with something else at a place. -/
def put (t : Table) (page slot : Nat) (content : Option Row) : Table :=
  { t with pages := t.pages.modify page (·.set slot content) }

/-- The table with a page more, which holds no rows. -/
def grown (t : Table) : Table := { t with pages := t.pages ++ [List.replicate t.slots none] }

/-- A row goes to the first free place, or else to the first slot of a new page. -/
def insert (t : Table) (row : Row) : (Nat × Nat) × Table :=
  match t.firstFree? with
  | some (page, slot) => ((page, slot), t.put page slot (some (row.movedTo none)))
  | none =>
    ((t.pages.length, 0), t.grown.put t.pages.length 0 (some (row.movedTo none)))

/-- The rows by ascending place, each with its place. -/
def rows (t : Table) (id : TableId) : List Row :=
  t.places.filterMap fun (page, slot) =>
    (t.row? page slot).map (·.movedTo (some ⟨⟨id, page⟩, slot⟩))

/-- What the slots of a page hold, each row with its place. -/
def placed (id : PageId) (sheet : Sheet) : List (Option Row) :=
  sheet.mapIdx fun slot content => content.map (·.movedTo (some ⟨id, slot⟩))

end Table

end Reference

/-- The tables by number. -/
abbrev Reference := TableId → Option Reference.Table

/-! ## 2. Requests -/

inductive Request where
  | insert (table : TableId) (row : Row)
  | delete (row : Row)
  /-- Looks at a page, and lets it go. -/
  | fetch (page : PageId)
  | flush (page : PageId)
  | flushAll
  | scan (table : TableId)

inductive Answer where
  /-- The page that was changed, and the row with the place that it has now. -/
  | changed (page : PageId) (row : Row)
  | slots (rows : List (Option Row))
  | done
  | rows (rows : List Row)
deriving DecidableEq

namespace Database

/-- The rows of a table, by a scan to its end. -/
def scanTable (table : TableId) : DbM (List Row) := do
  let ref ← tableOf table
  let f ← file ref
  StreamM.runFrom (Scan.stream ref f.layout.schema).drain none

/-- The database's answer to a request.  Whether a flushed page was cached is not part of it. -/
def answer : Request → DbM Answer
  | .insert table row => do
    let (page, row) ← insert table row
    return .changed page row
  | .delete row => do
    let (page, row) ← delete row
    return .changed page row
  | .fetch page => do
    let frame ← fetch page
    return .slots frame.page.slots.toList
  | .flush page => do
    let _ ← flushPage page
    return .done
  | .flushAll => do
    flushAll
    return .done
  | .scan table => do
    let rows ← scanTable table
    return .rows rows

/-- The answers to requests that are made one after another, whether they succeed or fail. -/
def answers (db : Database) : List Request → List (Except Error Answer)
  | [] => []
  | request :: requests =>
    match (answer request).run db with
    | .ok a db => .ok a :: db.answers requests
    | .error e db => .error e :: db.answers requests

end Database

namespace Reference

/-- The reference's answer to a request; one that fails changes nothing. -/
def answer (store : Reference) : Request → Except Error Answer × Reference
  | .insert table row =>
    match store table with
    | none => (.error (.noSuchTable table), store)
    | some t =>
      if row.schema ≠ t.schema then (.error (.schema (.notOfTable row.values table)), store)
      else
        let ((page, slot), t) := t.insert row
        (.ok (.changed ⟨table, page⟩ (row.movedTo (some ⟨⟨table, page⟩, slot⟩))),
          Function.update store table (some t))
  | .delete row =>
    match row.place with
    | none => (.error .notStored, store)
    | some ⟨page, slot⟩ =>
      match store page.table with
      | none => (.error (.noSuchTable page.table), store)
      | some t =>
        if t.pages.length ≤ page.number then (.error (.noSuchPage page), store)
        else if (t.row? page.number slot).isNone then (.error (.emptySlot page slot), store)
        else (.ok (.changed page (row.movedTo none)),
          Function.update store page.table (some (t.put page.number slot none)))
  | .fetch page =>
    match store page.table with
    | none => (.error (.noSuchTable page.table), store)
    | some t =>
      match t.pages[page.number]? with
      | none => (.error (.io .unexpectedEof), store)
      | some sheet => (.ok (.slots (Table.placed page sheet)), store)
  | .flush _ => (.ok .done, store)
  | .flushAll => (.ok .done, store)
  | .scan table =>
    match store table with
    | none => (.error (.noSuchTable table), store)
    | some t => (.ok (.rows (t.rows table)), store)

def answers (store : Reference) : List Request → List (Except Error Answer)
  | [] => []
  | request :: requests =>
    let (a, store) := store.answer request
    a :: store.answers requests

end Reference
end RowStore
