/-
# Pages

A page in memory: the bitmap, the rows in their slots, and two marks.  `dirty` says that the
page has changed since it was last written; `before` is the image it had when it was last read
or captured.

A row goes into the lowest free slot.  It is found again by its place, so removing a row
looks at nothing but the place.
-/
import RowStore.Page.Bitmap
import RowStore.Page.Layout
import RowStore.Row

namespace RowStore

structure Page where
  id : PageId
  layout : Layout
  bitmap : Bitmap
  slots : Array (Option Row)
  dirty : Bool
  before : Bytes

namespace Page

/-- The image of a page without rows. -/
def zeroImage (pageSize : Nat) : Bytes := List.replicate pageSize 0

/-- The page without rows. -/
def empty (id : PageId) (layout : Layout) : Page where
  id := id
  layout := layout
  bitmap := .empty layout.headerSize
  slots := Array.replicate layout.slots none
  dirty := false
  before := zeroImage layout.pageSize

/-! ## 1. Looking -/

/-- The slot holds a row. -/
def isUsed (page : Page) (slot : Nat) : Bool :=
  decide (slot < page.layout.slots) && page.bitmap.test slot

def usedSlots (page : Page) : List Nat := (List.range page.layout.slots).filter page.isUsed

/-- The number of free slots. -/
def freeCount (page : Page) : Nat :=
  (List.range page.layout.slots).countP fun slot => !page.isUsed slot

/-- The lowest free slot. -/
def firstFree? (page : Page) : Option Nat :=
  (List.range page.layout.slots).find? fun slot => !page.isUsed slot

def row? (page : Page) (slot : Nat) : Option Row := page.slots[slot]?.join

/-- The rows of the page by ascending slot. -/
def rows (page : Page) : List Row := page.slots.toList.flatMap Option.toList

/-- The two pages have the same id, bitmap and rows. -/
def sameContent (a b : Page) : Bool :=
  a.id == b.id && a.bitmap == b.bitmap && a.slots.isEqv b.slots sameSlot
where
  /-- Both slots are free, or hold equal rows. -/
  sameSlot : Option Row → Option Row → Bool
    | none, none => true
    | some a, some b => a.sameContent b
    | _, _ => false

/-! ## 2. Changing -/

/-- Writes what a slot holds, and its bit. -/
def putSlot (page : Page) (slot : Nat) (content : Option Row) : Page :=
  { page with
    bitmap := page.bitmap.put slot content.isSome
    slots := page.slots.setIfInBounds slot content }

/-- Stores the row in the lowest free slot; second, the row with its new place. -/
def insert (page : Page) (row : Row) : Except Error (Page × Row) :=
  if row.schema ≠ page.layout.schema then
    .error (.schema (.notOfPage row.values page.id))
  else match page.firstFree? with
    | none => .error (.pageFull page.id)
    | some slot =>
      let stored := row.movedTo (some ⟨page.id, slot⟩)
      .ok (page.putSlot slot (some stored), stored)

/-- Stores rows of the page's schema one after another. -/
def insertAll : Page → List (List Value) → Except Error Page
  | page, [] => .ok page
  | page, values :: rest => do
    let row ← Row.make page.layout.schema values
    let (page, _) ← page.insert row
    page.insertAll rest

/-- Frees the slot that the row names; second, the row without a place. -/
def delete (page : Page) (row : Row) : Except Error (Page × Row) :=
  match row.place with
  | none => .error (.notOnPage page.id)
  | some place =>
    if place.page ≠ page.id then .error (.notOnPage page.id)
    else if page.isUsed place.slot then .ok (page.putSlot place.slot none, row.movedTo none)
    else .error (.emptySlot page.id place.slot)

def mark (page : Page) (dirty : Bool) : Page := { page with dirty }

end Page
end RowStore
