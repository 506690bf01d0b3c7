/-
# How a page is divided is as tight as can be

Rows of a width fit on a page if their bits, rounded up to whole bytes, and the rows themselves take
no more than the page has (`Fits`).  The number of slots is worked out without the rounding, by one
division of bits.  It is the greatest number of rows that fit all the same (`isGreatest_slotsFor`):
what the rows leave of a page is whole bytes, so their bits fit there if and only if the bits rounded
up do (`fits_iff`).

A layout is made if and only if that number is one at least and can be written in sixteen bits
(`Layout.make_tight`).  `Layout.Tight` is what follows for the bytes of a page: those of the bitmap,
those of each slot and those left over lie one behind the other inside the page.
-/
import Mathlib.Algebra.Order.Floor.Div
import RowStore.Proofs.Page.NormalForm

namespace RowStore

/-! ## 1. The greatest number of rows -/

/-- So many rows fit on a page together with their bits. -/
def Fits (width pageSize rows : Nat) : Prop := rows ⌈/⌉ 8 + rows * width ≤ pageSize

/-- Counted in bits, nothing has to be rounded. -/
theorem fits_iff {width pageSize rows : Nat} :
    Fits width pageSize rows ↔ rows * (width * 8 + 1) ≤ pageSize * 8 := by
  rw [Fits, Nat.ceilDiv_eq_add_pred_div, Nat.mul_add, ← Nat.mul_assoc]
  omega

/-- **One division gives the greatest number.** -/
theorem isGreatest_slotsFor (width pageSize : Nat) :
    IsGreatest {rows | Fits width pageSize rows} (slotsFor width pageSize) := by
  constructor
  · exact fits_iff.mpr (Nat.div_mul_le_self _ _)
  · intro rows hrows
    exact (Nat.le_div_iff_mul_le (Nat.succ_pos _)).mpr (fits_iff.mp hrows)

/-- The division in words of sixty-four bits. -/
def slotsInWords (width pageSize : UInt64) : UInt64 := pageSize * 8 / (width * 8 + 1)

/-- Words give the same number, as long as they hold the bits of a page and of a row. -/
theorem toNat_slotsInWords {width pageSize : Nat} (hpage : pageSize * 8 < 2 ^ 64)
    (hrow : width * 8 + 1 < 2 ^ 64) :
    (slotsInWords (.ofNat width) (.ofNat pageSize)).toNat = slotsFor width pageSize := by
  simp only [slotsInWords, UInt64.toNat_div, UInt64.toNat_mul, UInt64.toNat_add,
    UInt64.toNat_ofNat', UInt64.toNat_ofNat]
  rw [slotsFor]
  congr 1
  · omega
  · omega

namespace Layout

/-! ## 2. Which layouts are made -/

/-- A layout is made of its own schema and page size, and of nothing else. -/
theorem make_eq_ok_iff {schema : Schema} {pageSize : Nat} {layout : Layout} :
    make schema pageSize = .ok layout ↔ layout.schema = schema ∧ layout.pageSize = pageSize := by
  constructor
  · intro h
    simp only [make] at h
    split at h
    · cases h
    · split at h
      · cases h
      · split at h
        · cases h
        · cases h
          exact ⟨rfl, rfl⟩
  · rintro ⟨rfl, rfl⟩
    obtain ⟨schema, pageSize, slots, rfl, hwidth, hslots, hle⟩ := layout
    simp only [make]
    rw [dif_neg hwidth.ne', dif_neg hslots.ne', dif_neg (Nat.not_lt.mpr hle)]

theorem exists_make_iff {schema : Schema} {pageSize : Nat} :
    (∃ layout, make schema pageSize = .ok layout) ↔
      0 < schema.width ∧ 1 ≤ slotsFor schema.width pageSize ∧
        slotsFor schema.width pageSize ≤ 65536 := by
  constructor
  · rintro ⟨layout, hmake⟩
    obtain ⟨rfl, rfl⟩ := make_eq_ok_iff.mp hmake
    rw [← layout.slots_eq]
    exact ⟨layout.width_pos, layout.slots_pos, layout.slots_le⟩
  · rintro ⟨hwidth, hslots, hle⟩
    exact ⟨⟨schema, pageSize, _, rfl, hwidth, hslots, hle⟩, make_eq_ok_iff.mpr ⟨rfl, rfl⟩⟩

/-! ## 3. The bytes of a page -/

variable (layout : Layout)

theorem headerSize_eq : layout.headerSize = layout.slots ⌈/⌉ 8 := by
  rw [headerSize, Nat.ceilDiv_eq_add_pred_div]
  rfl

theorem isGreatest_slots :
    IsGreatest {rows | Fits layout.width layout.pageSize rows} layout.slots := by
  rw [layout.slots_eq]
  exact isGreatest_slotsFor _ _

/-- Behind one slot comes the next. -/
theorem slotStart_add_width_le_slotStart {a b : Nat} (h : a < b) :
    layout.slotStart a + layout.width ≤ layout.slotStart b := by
  have hmul : (a + 1) * layout.width ≤ b * layout.width := Nat.mul_le_mul_right _ h
  rw [Nat.succ_mul] at hmul
  rw [slotStart, slotStart]
  omega

/-- The bytes of a page are divided among the bitmap, the slots and the rest, and there is room for
no slot more. -/
structure Tight : Prop where
  greatest : IsGreatest {rows | Fits layout.width layout.pageSize rows} layout.slots
  header : layout.headerSize = layout.slots ⌈/⌉ 8
  /-- Another slot, with a bit of its own, would not fit. -/
  full : layout.pageSize < (layout.slots + 1) ⌈/⌉ 8 + (layout.slots + 1) * layout.width
  /-- The bytes of a slot are bytes of the page and not of the bitmap. -/
  inside : ∀ slot < layout.slots, layout.headerSize ≤ layout.slotStart slot ∧
    layout.slotStart slot + layout.width ≤ layout.pageSize
  /-- No byte is in two slots. -/
  apart : ∀ a b, a < b → layout.slotStart a + layout.width ≤ layout.slotStart b
  /-- Each slot is written to these bytes. -/
  written : ∀ id page, Page.Reachable id layout page → ∀ slot < layout.slots,
    layout.slotBytes page.encode slot = Page.encodeSlot layout.width (page.row? slot)
  /-- Each slot is read from these bytes. -/
  read : ∀ id image page, Page.decode id layout image = .ok page → ∀ slot < layout.slots,
    Page.decodeSlot id layout.schema page.bitmap slot (layout.slotBytes image slot) =
      .ok (page.row? slot)
  /-- What is written of a page before it is filled up is never longer than a page. -/
  padded : ∀ id page, Page.Reachable id layout page →
    (page.bitmap.bytes.toList ++
      page.slots.toList.flatMap (Page.encodeSlot layout.width)).length ≤ layout.pageSize
  /-- The number of a slot is the same in sixteen bits. -/
  numbered : ∀ slot < layout.slots, (UInt16.ofNat slot).toNat = slot

end Layout

namespace Page

theorem Valid.slotBytes_encode {page : Page} (h : page.Valid) {slot : Nat}
    (hslot : slot < page.layout.slots) :
    page.layout.slotBytes page.encode slot = encodeSlot page.layout.width (page.row? slot) := by
  have hwritten : (encodeSlot page.layout.width (page.row? slot)).length = page.layout.width :=
    length_encodeSlot fun row hrow => by rw [h.schema_eq hrow, Layout.width]
  have hread := Layout.length_slotBytes h.length_encode hslot
  refine List.ext_getElem? fun off => ?_
  by_cases hoff : off < page.layout.width
  · rw [Layout.getElem?_slotBytes _ _ hoff, h.getElem?_encode_slot hslot hoff]
  · rw [List.getElem?_eq_none (by omega), List.getElem?_eq_none (by omega)]

theorem decodeSlot_of_decode {id : PageId} {layout : Layout} {image : Bytes} {page : Page}
    (h : decode id layout image = .ok page) {slot : Nat} (hslot : slot < layout.slots) :
    decodeSlot id layout.schema page.bitmap slot (layout.slotBytes image slot) =
      .ok (page.row? slot) := by
  have hv := Valid.of_decode h
  obtain ⟨-, slots, hslots, rfl⟩ := decode_cases h
  rcases decodeSlots_cases id layout.schema ⟨(image.take layout.headerSize).toArray⟩ 0 layout.slots
    (image.drop layout.headerSize) with ⟨slots', hok, hall⟩ | ⟨e, herr, -⟩
  · obtain rfl := Except.ok.inj (hslots.symm.trans hok)
    obtain ⟨content, hcontent, hread⟩ := hall slot hslot
    rw [Nat.zero_add, take_drop_slot] at hread
    have hrow := hv.getElem?_slots hslot
    rw [List.getElem?_toArray, hcontent, Option.some.injEq] at hrow
    rw [hread, hrow]
  · rw [hslots] at herr
    cases herr

end Page

namespace Layout

theorem tight (layout : Layout) : layout.Tight where
  greatest := layout.isGreatest_slots
  header := layout.headerSize_eq
  full := by
    rw [← Nat.not_le]
    intro hfits
    exact Nat.not_succ_le_self _ (layout.isGreatest_slots.2 hfits)
  inside slot hslot := ⟨Nat.le_add_right _ _, slotStart_add_width_le hslot⟩
  apart a b hlt := layout.slotStart_add_width_le_slotStart hlt
  written id page hpage slot hslot := by
    obtain ⟨hv, -, rfl⟩ := hpage.valid
    exact hv.slotBytes_encode hslot
  read id image page hdecode slot hslot := Page.decodeSlot_of_decode hdecode hslot
  padded id page hpage := by
    obtain ⟨hv, -, rfl⟩ := hpage.valid
    exact hv.length_body.trans_le page.layout.header_add_slots_le
  numbered slot hslot := UInt16.toNat_ofNat_of_lt' (hslot.trans_le layout.slots_le)

/-- **The geometry is tight.**  Rows of a schema have a layout on pages of a size if and only if they
take bytes and the greatest number of them that fits together with its bits is between 1 and 65536.
The layout has that many slots, and what follows for the bytes of its pages.  The number is the same
when it is worked out in words of sixty-four bits, if they hold the bits of a page and of a row. -/
theorem make_tight (schema : Schema) (pageSize : Nat) :
    ((∃ layout, make schema pageSize = .ok layout) ↔ 0 < schema.width ∧
      ∃ slots, IsGreatest {rows | Fits schema.width pageSize rows} slots ∧
        1 ≤ slots ∧ slots ≤ 65536) ∧
    (∀ layout, make schema pageSize = .ok layout →
      layout.schema = schema ∧ layout.pageSize = pageSize ∧ layout.Tight) ∧
    (pageSize * 8 < 2 ^ 64 → schema.width * 8 + 1 < 2 ^ 64 →
      (slotsInWords (.ofNat schema.width) (.ofNat pageSize)).toNat =
        slotsFor schema.width pageSize) := by
  have hgreatest := isGreatest_slotsFor schema.width pageSize
  refine ⟨?_, ?_, toNat_slotsInWords⟩
  · rw [exists_make_iff]
    constructor
    · rintro ⟨hwidth, hslots⟩
      exact ⟨hwidth, _, hgreatest, hslots⟩
    · rintro ⟨hwidth, slots, hslots, hbounds⟩
      rw [← hslots.unique hgreatest]
      exact ⟨hwidth, hbounds⟩
  · intro layout hmake
    obtain ⟨hschema, hpageSize⟩ := make_eq_ok_iff.mp hmake
    exact ⟨hschema, hpageSize, layout.tight⟩

/-- Nine rows of four bytes take all of thirty-eight bytes, two of them for the nine bits. -/
theorem make_tight_allTaken :
    ∃ (schema : Schema) (layout : Layout), schema.width = 4 ∧ make schema 38 = .ok layout ∧
      layout.slots = 9 ∧ layout.headerSize = 2 ∧
      layout.slotStart 8 + layout.width = layout.pageSize ∧
      38 * 8 < 2 ^ 64 ∧ schema.width * 8 + 1 < 2 ^ 64 ∧
      (slotsInWords (.ofNat schema.width) (.ofNat 38)).toNat = slotsFor schema.width 38 ∧
      layout.schema = schema ∧ layout.pageSize = 38 ∧ layout.Tight := by
  let schema : Schema := ⟨[⟨"n", .int⟩]⟩
  let layout : Layout := ⟨schema, 38, 9, by decide, by decide, by decide, by decide⟩
  have hmake : make schema 38 = .ok layout := by cbv
  have hpage : 38 * 8 < 2 ^ 64 := by decide
  have hrow : schema.width * 8 + 1 < 2 ^ 64 := by decide
  obtain ⟨-, htight, hwords⟩ := make_tight schema 38
  exact ⟨schema, layout, rfl, hmake, rfl, by decide, by decide, hpage, hrow, hwords hpage hrow,
    htight layout hmake⟩

end Layout
end RowStore
