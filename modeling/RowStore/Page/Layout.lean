/-
# How a page is divided

A page starts with a bitmap that has one bit for each slot, and the slots of the rows follow
it; what is left over at the end is not used.  A row costs its own bits and one of the bitmap,
which settles how many slots a page has.

`Layout.make` refuses a schema whose rows take no bytes, a page that cannot hold one row, and
one with more slots than sixteen bits can number.
-/
import RowStore.Error

namespace RowStore

/-- The slots of a page of `pageSize` bytes for rows of `width` bytes. -/
def slotsFor (width pageSize : Nat) : Nat := pageSize * 8 / (width * 8 + 1)

structure Layout where
  schema : Schema
  pageSize : Nat
  slots : Nat
  slots_eq : slots = slotsFor schema.width pageSize
  width_pos : 0 < schema.width
  slots_pos : 0 < slots
  slots_le : slots ≤ 65536
deriving DecidableEq

namespace Layout

/-- The layout of pages of `pageSize` bytes for rows of the schema. -/
def make (schema : Schema) (pageSize : Nat) : Except Error Layout :=
  let width := schema.width
  let slots := slotsFor width pageSize
  if hw : width = 0 then .error (.config .zeroWidth)
  else if h0 : slots = 0 then .error (.config (.rowTooWide width pageSize))
  else if hs : 65536 < slots then .error (.config (.tooManySlots slots))
  else .ok ⟨schema, pageSize, slots, rfl, Nat.pos_of_ne_zero hw, Nat.pos_of_ne_zero h0,
    Nat.le_of_not_lt hs⟩

/-- The bytes of a row, and so of a slot. -/
def width (layout : Layout) : Nat := layout.schema.width

/-- The bytes of the bitmap: one for each eight slots or part of them. -/
def headerSize (layout : Layout) : Nat := (layout.slots + 7) / 8

/-- Bitmap and slots do not exceed the page. -/
theorem header_add_slots_le (layout : Layout) :
    layout.headerSize + layout.slots * layout.width ≤ layout.pageSize := by
  have h := layout.slots_eq
  have hmul : layout.slots * (layout.schema.width * 8 + 1) ≤ layout.pageSize * 8 := by
    rw [h]; exact Nat.div_mul_le_self _ _
  rw [Nat.mul_add, ← Nat.mul_assoc] at hmul
  simp only [headerSize, width]
  omega

end Layout
end RowStore
