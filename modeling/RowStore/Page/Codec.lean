/-
# Page images

The image of a page is its bitmap, then its slots, then zeros up to the page size.  A free slot
is written as zeros.  Reading looks at the slots whose bits are set, and at no other byte behind
the bitmap; a slot in use that holds no row makes the image corrupt.
-/
import RowStore.Page.Basic
import RowStore.Row.Codec

namespace RowStore
namespace Page

/-! ## 1. Writing -/

/-- The bytes of a slot for rows of `width` bytes. -/
def encodeSlot (width : Nat) : Option Row → Bytes
  | none => List.replicate width 0
  | some row => row.encode

/-- The image of a page. -/
def encode (page : Page) : Bytes :=
  let body := page.bitmap.bytes.toList ++
    page.slots.toList.flatMap (encodeSlot page.layout.width)
  body ++ List.replicate (page.layout.pageSize - body.length) 0

/-! ## 2. Reading -/

/-- Reads slot `slot` of a page from its bytes. -/
def decodeSlot (id : PageId) (schema : Schema) (bitmap : Bitmap) (slot : Nat) (bytes : Bytes) :
    Except Error (Option Row) :=
  if bitmap.test slot then
    match Row.read schema bytes with
    | (some row, _) => .ok (some (row.movedTo (some ⟨id, slot⟩)))
    | (none, _) => .error (.corrupt id (.slot slot))
  else .ok none

/-- Reads `count` slots from `first` on. -/
def decodeSlots (id : PageId) (schema : Schema) (bitmap : Bitmap) (first : Nat) :
    Nat → Bytes → Except Error (List (Option Row))
  | 0, _ => .ok []
  | count + 1, bytes => do
    let slot ← decodeSlot id schema bitmap first (bytes.take schema.width)
    let rest ← decodeSlots id schema bitmap (first + 1) count (bytes.drop schema.width)
    return slot :: rest

/-- Reads a page from its image. -/
def decode (id : PageId) (layout : Layout) (image : Bytes) : Except Error Page :=
  if image.length ≠ layout.pageSize then
    .error (.corrupt id (.length layout.pageSize image.length))
  else do
    let bitmap : Bitmap := ⟨(image.take layout.headerSize).toArray⟩
    let slots ← decodeSlots id layout.schema bitmap 0 layout.slots (image.drop layout.headerSize)
    return { id, layout, bitmap, slots := slots.toArray, dirty := false, before := image }

/-! ## 3. The image before the last changes -/

/-- The page as it was when it was last read or captured. -/
def beforeImage (page : Page) : Except Error Page := decode page.id page.layout page.before

/-- Takes the page as it is now for the one before the changes to come. -/
def capture (page : Page) : Page := { page with before := page.encode }

end Page
end RowStore
