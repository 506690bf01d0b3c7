/-
# What can go wrong

An error is a cause: it carries what was found, and `Error.message` words it.
-/
import RowStore.Comparison
import RowStore.Decimal.Shortest
import RowStore.Identifier
import RowStore.Schema
import RowStore.Summary

namespace RowStore

/-! ## 1. Causes -/

/-- What the file system refuses. -/
inductive IoFault where
  /-- A page was read beyond the end of the file. -/
  | unexpectedEof
  /-- A write found no room on the device. -/
  | storageFull
  /-- There is no such file, or no such directory on the way to it. -/
  | notFound
  /-- The path leads to a directory. -/
  | isADirectory
  /-- A file stands where the path needs a directory. -/
  | notADirectory
  /-- A name is longer than names may be. -/
  | invalidFilename
  /-- The text is no path, or the device has no length to set and nothing to synchronise. -/
  | invalidInput
deriving DecidableEq, Repr

/-- A setting or a request that no component can work with. -/
inductive ConfigFault where
  | zeroPageSize
  | zeroJoinBudget
  | zeroBuckets
  /-- The cost of a page, by its bits, is negative or not a number. -/
  | badPageCost (bits : UInt64)
  /-- The rows of a schema take no bytes. -/
  | zeroWidth
  | rowTooWide (width pageSize : Nat)
  | tooManySlots (slots : Nat)
  | joinComparison (comparison : Comparison)
  /-- The two join columns hold different kinds of values. -/
  | joinKinds (left right : Column)
  | joinBudget (budget width : Nat)
  /-- The function is not defined over the column. -/
  | summaryKind (summary : Summary) (column : Column)
  | noBuckets
  | emptyDomain (least greatest : Int)
deriving DecidableEq, Repr

/-- A row or a value that does not belong where it was put. -/
inductive SchemaFault where
  | valueCount (expected found : Nat)
  | valueMisfit (value : Value) (column : Column)
  | notOfPage (row : List Value) (page : PageId)
  | notOfTable (row : List Value) (table : TableId)
  | notOfListing (row : List Value)
  /-- The operand of an estimate is not of the histogram's kind. -/
  | notOfHistogram (value : Value)
deriving DecidableEq

/-- Why bytes are no page. -/
inductive ImageFault where
  | length (expected found : Nat)
  | slot (slot : Nat)
deriving DecidableEq, Repr

inductive Error where
  | io (fault : IoFault)
  | pageFull (page : PageId)
  | notOnPage (page : PageId)
  /-- The row is stored nowhere. -/
  | notStored
  | emptySlot (page : PageId) (slot : Nat)
  /-- The row names a page behind the end of its table. -/
  | noSuchPage (page : PageId)
  | zeroCapacity
  /-- Every cached page is held by someone. -/
  | allPinned
  | config (fault : ConfigFault)
  /-- A row was asked of a stream that is not open. -/
  | notOpen
  | noSuchTable (table : TableId)
  | nameTaken (name : String)
  | schema (fault : SchemaFault)
  | noSuchColumn (field : Nat)
  | overflow (summary : Summary) (value : Int)
  | corrupt (page : PageId) (fault : ImageFault)
deriving DecidableEq

/-! ## 2. Wording -/

namespace IoFault

def message : IoFault → String
  | unexpectedEof => "unexpected end of file"
  | storageFull => "no storage space"
  | notFound => "entity not found"
  | isADirectory => "is a directory"
  | notADirectory => "not a directory"
  | invalidFilename => "invalid filename"
  | invalidInput => "invalid input parameter"

end IoFault

namespace ConfigFault

def message : ConfigFault → String
  | zeroPageSize => "page size must be positive"
  | zeroJoinBudget => "join memory budget must be positive"
  | zeroBuckets => "histogram bucket count must be positive"
  | badPageCost bits =>
    "io cost per page must be non-negative, got " ++ Decimal.shortest bits
  | zeroWidth => "schema has zero-width tuples"
  | rowTooWide width pageSize => s!"a {width} byte tuple does not fit a {pageSize} byte page"
  | tooManySlots slots => s!"{slots} slots per page exceeds the slot id range"
  | joinComparison c => s!"join operator {c.render} is not supported"
  | joinKinds l r =>
    s!"cannot join {l.name} ({l.type.render}) with {r.name} ({r.type.render})"
  | joinBudget budget width =>
    s!"join memory budget of {budget} bytes cannot hold a {width}-byte tuple"
  | summaryKind f c => s!"{f.render} is not defined over {c.type.render} column {c.name}"
  | noBuckets => "histogram needs at least one bucket"
  | emptyDomain least greatest =>
    "histogram domain [" ++ least.repr ++ ", " ++ greatest.repr ++ "] is empty"

end ConfigFault

namespace SchemaFault

def message : SchemaFault → String
  | valueCount expected found => s!"expected {expected} values, got {found}"
  | valueMisfit v c =>
    s!"value {v.render} does not fit column {c.name} of type {c.type.render}"
  | notOfPage row page =>
    s!"tuple {Value.renderRow row} does not match the schema of page {page.render}"
  | notOfTable row table =>
    s!"tuple {Value.renderRow row} does not match the schema of table {TableId.render table}"
  | notOfListing row => s!"tuple {Value.renderRow row} does not match the stream schema"
  | notOfHistogram v => s!"cannot estimate {v.render} against a histogram of another type"

end SchemaFault

namespace ImageFault

def message : ImageFault → String
  | length expected found => s!"expected {expected} bytes, got {found}"
  | slot i => s!"slot {i} does not hold a valid tuple"

end ImageFault

namespace Error

def message : Error → String
  | io fault => "I/O error: " ++ fault.message
  | pageFull page => s!"Page {page.render} has no empty slot"
  | notOnPage page => s!"Tuple is not stored on page {page.render}"
  | notStored => "Tuple has no record id; it is not stored in any table"
  | emptySlot page slot => s!"Slot {slot} of page {page.render} is empty"
  | noSuchPage page =>
    s!"Tuple references {page.render}, which is beyond the end of its table file"
  | zeroCapacity => "Cache capacity must be positive, got 0"
  | allPinned => "Buffer pool is full, every cached page is in use"
  | config fault => "Invalid configuration: " ++ fault.message
  | notOpen => "No such element: stream is not open"
  | noSuchTable table => s!"Table {TableId.render table} not found"
  | nameTaken name => s!"Table {name} already exists"
  | schema fault => "Schema mismatch: " ++ fault.message
  | noSuchColumn field => s!"Column index {field} out of range"
  | overflow f value =>
    f.render ++ " result " ++ value.repr ++ " does not fit in a 32-bit integer"
  | corrupt page fault => s!"Corrupt page {page.render}: {fault.message}"

end Error

/-- What goes on has had a result to go on from. -/
theorem exists_of_bind_ok {α β : Type} {x : Except Error α} {f : α → Except Error β} {b : β}
    (h : (x >>= f) = .ok b) : ∃ a, x = .ok a ∧ f a = .ok b := by
  cases x with
  | error e => cases h
  | ok a => exact ⟨a, rfl, h⟩

end RowStore
