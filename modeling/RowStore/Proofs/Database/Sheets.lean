/-
# What a page says

`Page.sheet` is what a page says to the outside: the rows of its slots, without their places, which
a page in order has anyway.  Every operation on pages is an operation on sheets.
-/
import RowStore.Proofs.Database.Reference
import RowStore.Proofs.Page.RoundTrip
import Mathlib.Data.List.Basic

namespace RowStore

@[simp] theorem Row.movedTo_movedTo (row : Row) (a b : Option RecordId) :
    (row.movedTo a).movedTo b = row.movedTo b := rfl

namespace Page

/-! ## 1. Looking -/

/-- The rows of the slots, without their places. -/
def sheet (page : Page) : Sheet := page.slots.toList.map (Option.map (·.movedTo none))

theorem Valid.length_sheet {page : Page} (h : page.Valid) :
    page.sheet.length = page.layout.slots := by
  rw [sheet, List.length_map, Array.length_toList, h.size]

theorem join_getElem?_sheet (page : Page) (slot : Nat) :
    page.sheet[slot]?.join = (page.row? slot).map (·.movedTo none) := by
  rw [sheet, List.getElem?_map, Array.getElem?_toList, row?]
  cases page.slots[slot]? with
  | none => rfl
  | some content => rfl

theorem isNone_join_getElem?_sheet (page : Page) (slot : Nat) :
    (page.sheet[slot]?.join).isNone = !(page.row? slot).isSome := by
  rw [join_getElem?_sheet]
  cases page.row? slot <;> rfl

/-- A stored row is the row on the sheet, put back in its place. -/
theorem Valid.movedTo_row? {page : Page} (h : page.Valid) (slot : Nat) :
    (page.sheet[slot]?.join).map (·.movedTo (some ⟨page.id, slot⟩)) = page.row? slot := by
  rw [join_getElem?_sheet]
  cases hr : page.row? slot with
  | none => rfl
  | some row =>
    have hplace : row.movedTo (some ⟨page.id, slot⟩) = row := by rw [← h.place_eq hr]; rfl
    simp only [Option.map_some, Row.movedTo_movedTo, hplace]

theorem Valid.placed_sheet {page : Page} (h : page.Valid) :
    Reference.Table.placed page.id page.sheet = page.slots.toList := by
  refine List.ext_getElem? fun slot => ?_
  rw [Reference.Table.placed, List.getElem?_mapIdx]
  by_cases hslot : slot < page.layout.slots
  · have hsheet : slot < page.sheet.length := by rwa [h.length_sheet]
    have hrow := h.movedTo_row? slot
    rw [List.getElem?_eq_getElem hsheet, Option.join_some] at hrow
    rw [List.getElem?_eq_getElem hsheet, Option.map_some, hrow, Array.getElem?_toList,
      h.getElem?_slots hslot]
  · have hsheet : page.sheet.length ≤ slot := by rw [h.length_sheet]; omega
    rw [List.getElem?_eq_none hsheet, Option.map_none, List.getElem?_eq_none]
    rw [Array.length_toList, h.size]
    omega

/-- The rows of a page are those of its sheet, by slot. -/
theorem Valid.rows_eq {page : Page} (h : page.Valid) :
    page.rows = (List.range page.layout.slots).filterMap fun slot =>
      (page.sheet[slot]?.join).map (·.movedTo (some ⟨page.id, slot⟩)) := by
  simp only [h.movedTo_row?]
  exact h.rows_eq_filterMap

theorem Valid.length_rows_le {page : Page} (h : page.Valid) : page.rows.length ≤ 65536 := by
  have hle := List.length_filterMap_le (fun slot =>
    (page.sheet[slot]?.join).map (·.movedTo (some ⟨page.id, slot⟩)))
    (List.range page.layout.slots)
  rw [← h.rows_eq, List.length_range] at hle
  exact Nat.le_trans hle page.layout.slots_le

/-! ## 2. The first free slot -/

/-- The first slot of a sheet without a row. -/
def firstBlank? (slots : Nat) (sheet : Sheet) : Option Nat :=
  (List.range slots).find? fun slot => (sheet[slot]?.join).isNone

theorem Valid.firstFree?_eq {page : Page} (h : page.Valid) :
    page.firstFree? = firstBlank? page.layout.slots page.sheet := by
  simp only [firstFree?, firstBlank?, h.isUsed_eq, isNone_join_getElem?_sheet]

/-- A page has room if it has a first free slot. -/
theorem freeCount_pos_iff (page : Page) : 0 < page.freeCount ↔ page.firstFree?.isSome := by
  rw [freeCount, firstFree?, List.countP_pos_iff, List.find?_isSome]

/-! ## 3. Changing -/

theorem sheet_putSlot (page : Page) (slot : Nat) (content : Option Row) :
    (page.putSlot slot content).sheet =
      page.sheet.set slot (content.map (·.movedTo none)) := by
  rw [sheet, putSlot, Array.toList_setIfInBounds, List.map_set, sheet]

@[simp] theorem sheet_mark (page : Page) (dirty : Bool) :
    (page.mark dirty).sheet = page.sheet := rfl

@[simp] theorem sheet_capture (page : Page) : page.capture.sheet = page.sheet := rfl

theorem Valid.mark {page : Page} (h : page.Valid) (dirty : Bool) : (page.mark dirty).Valid :=
  h.withMarks dirty page.before

theorem Valid.capture {page : Page} (h : page.Valid) : page.capture.Valid :=
  h.withMarks page.dirty page.encode

/-! ## 4. The page without rows -/

theorem sheet_empty (id : PageId) (layout : Layout) :
    (empty id layout).sheet = List.replicate layout.slots none := by
  rw [sheet, empty, Array.toList_replicate, List.map_replicate]
  rfl

end Page
end RowStore
