/-
# Pages on disk

Page `n` of a table takes the bytes from `n * pageSize` on.  A page that does not decode has
been read all the same, and is counted.  A page written behind the end lengthens the table; the
pages in between are then empty.
-/
import RowStore.Database.Basic

namespace RowStore
namespace Database

/-- Reads a page of a table from disk. -/
def readPage (ref : TableRef) (number : Nat) : DbM Page := do
  let f ← file ref
  let id : PageId := ⟨f.id, number⟩
  let size := f.layout.pageSize
  let image ← attemptIo ((← get).disk.read f.path (id.offset size) size)
  modifyFile ref fun f => { f with reads := f.reads + 1 }
  attempt (Page.decode id f.layout image)

/-- Writes bytes of a table's file and counts the write. -/
def writeAt (ref : TableRef) (number : Nat) (image : Bytes) : DbM Unit := do
  let f ← file ref
  let db ← get
  let disk ← attemptIo (db.disk.write f.path (number * f.layout.pageSize) image)
  set { db with disk }
  modifyFile ref fun f =>
    { f with pageCount := max f.pageCount (number + 1), writes := f.writes + 1 }

/-- Writes a page to its place in the table. -/
def writePage (ref : TableRef) (page : Page) : DbM Unit :=
  writeAt ref page.id.number page.encode

/-- Lengthens the table by a page without rows. -/
def appendPage (ref : TableRef) : DbM PageId := do
  let f ← file ref
  writeAt ref f.pageCount (Page.zeroImage f.layout.pageSize)
  return ⟨f.id, f.pageCount⟩

/-- Takes back an appended page, if it is still the last one. -/
def removeLastPage (ref : TableRef) (id : PageId) : DbM Unit := do
  let f ← file ref
  if f.pageCount = id.number + 1 then
    let db ← get
    let disk ← attemptIo (db.disk.resize f.path (id.offset f.layout.pageSize))
    set { db with disk }
    modifyFile ref fun f => { f with pageCount := id.number }

/-- Brings the table's file to stable storage. -/
def syncFile (ref : TableRef) : DbM Unit := do
  let f ← file ref
  attemptIo ((← get).disk.sync f.path)

end Database
end RowStore
