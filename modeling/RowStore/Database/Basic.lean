/-
# The state of a database

A database has a disk, the table files that are open on it, a catalog that names tables, and a
pool of cached pages.  Every operation is a step on this state, which may end in an error; what
it has done up to there stays done.

Each cached page stands in a frame.  A frame has a serial number, so that two loads of one page
can be told apart, and a count of the holders that have it pinned.  A pinned frame that is
dropped from the cache goes on to exist, beside the cache, until its holders let go.
-/
import RowStore.Disk
import RowStore.Lru
import RowStore.Page.Codec

namespace RowStore

/-! ## 1. Parts -/

/-- An open table file: pages of one layout, one behind the other. -/
structure TableFile where
  id : TableId
  /-- The path of the file's place on the disk. -/
  path : String
  layout : Layout
  /-- Pages in the file, as far as this table has written or seen it.  A count in words of thirty-two
  bits is the same one as long as it stays below `2 ^ 32`. -/
  pageCount : Nat
  /-- Page reads and page writes that succeeded. -/
  reads : Nat
  writes : Nat

/-- Names a table file of a database. -/
structure TableRef where
  index : Nat
deriving DecidableEq, Repr, Inhabited

/-- A table that the catalog knows. -/
structure Catalog.Entry where
  name : String
  file : TableRef
deriving DecidableEq, Repr

/-- The tables by number and by name.  All have pages of one size. -/
structure Catalog where
  pageSize : Nat
  tables : Std.TreeMap TableId Catalog.Entry
  ids : Std.TreeMap String TableId
  nextId : TableId

/-- A cached page. -/
structure Frame where
  page : Page
  serial : Nat
  /-- How many holders keep it from being evicted. -/
  pins : Nat

structure Pool where
  cache : Lru PageId Frame
  /-- Pinned frames that were dropped from the cache. -/
  detached : List Frame
  nextSerial : Nat

structure Database where
  disk : Disk
  files : Array TableFile
  catalog : Catalog
  pool : Pool

/-- A step on a database.  An error leaves the state as it was when the error arose. -/
abbrev DbM := EStateM Error Database

/-! ## 2. A new database -/

def Catalog.empty (pageSize : Nat) : Catalog := ⟨pageSize, ∅, ∅, 0⟩

/-- A pool for at most `capacity` pages. -/
def Pool.make (capacity : Nat) : Except Error Pool :=
  (Lru.make capacity).map fun cache => ⟨cache, [], 0⟩

namespace Database

/-- A database on the disk, without tables. -/
def onDisk (disk : Disk) (pageSize capacity : Nat) : Except Error Database :=
  (Pool.make capacity).map fun pool => ⟨disk, #[], .empty pageSize, pool⟩

/-- A database on an empty disk. -/
def make (pageSize capacity : Nat) : Except Error Database := onDisk .empty pageSize capacity

/-- The outcome of a computation that does not touch the state. -/
def attempt {α : Type} : Except Error α → DbM α
  | .ok a => pure a
  | .error e => throw e

/-- The outcome of a request to the file system. -/
def attemptIo {α : Type} : Except IoFault α → DbM α
  | .ok a => pure a
  | .error fault => throw (.io fault)

/-- A table file.  A reference that this database has not given out names none. -/
def file (ref : TableRef) : DbM TableFile := do
  match (← get).files[ref.index]? with
  | some f => return f
  | none => throw (.noSuchTable ref.index)

def modifyFile (ref : TableRef) (change : TableFile → TableFile) : DbM Unit :=
  modify fun db => { db with files := db.files.modify ref.index change }

def modifyPool (change : Pool → Pool) : DbM Unit :=
  modify fun db => { db with pool := change db.pool }

end Database
end RowStore
