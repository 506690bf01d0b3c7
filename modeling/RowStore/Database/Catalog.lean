/-
# Opening tables

Opening a table file settles the layout first, then makes sure that the file exists, and counts
its whole pages; a part of a page at the end is not looked at.  The catalog gives a table its
number when its file has been opened, so a failing call uses none up, and it looks for the name
before anything else.
-/
import RowStore.Database.Basic

namespace RowStore
namespace Database

/-- Opens the table file at `path`, and creates it if it does not exist. -/
def openFile (id : TableId) (path : String) (schema : Schema) (pageSize : Nat) : DbM TableRef := do
  let layout ← attempt (Layout.make schema pageSize)
  let db ← get
  let (place, disk) ← attemptIo (db.disk.create path)
  let file : TableFile := ⟨id, place, layout, disk.size place / pageSize, 0, 0⟩
  set { db with disk, files := db.files.push file }
  return ⟨db.files.size⟩

/-- Opens a table file and enters it under a name that is new. -/
def openTable (name path : String) (schema : Schema) : DbM TableRef := do
  let catalog := (← get).catalog
  if catalog.ids.contains name then throw (.nameTaken name)
  let id := catalog.nextId
  let ref ← openFile id path schema catalog.pageSize
  modify fun db => { db with catalog := { catalog with
    tables := catalog.tables.insert id ⟨name, ref⟩
    ids := catalog.ids.insert name id
    nextId := id + 1 } }
  return ref

end Database

namespace Catalog

/-- The numbers of the tables, ascending. -/
def tableIds (c : Catalog) : List TableId := c.tables.keys

def idOf? (c : Catalog) (name : String) : Option TableId := c.ids[name]?

def nameOf? (c : Catalog) (id : TableId) : Option String := c.tables[id]?.map (·.name)

end Catalog

namespace Database

/-- The file of a table of the catalog. -/
def tableOf (id : TableId) : DbM TableRef := do
  match (← get).catalog.tables[id]? with
  | some entry => return entry.file
  | none => throw (.noSuchTable id)

/-- The schema of a table of the catalog. -/
def schemaOf (id : TableId) : DbM Schema := do
  return (← file (← tableOf id)).layout.schema

end Database
end RowStore
