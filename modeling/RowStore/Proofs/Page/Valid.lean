/-
# Pages in order

The bitmap of a page and its slots say the same thing twice: a bit is set if the slot holds a row.
`Valid` is that agreement, together with what is true of every stored row: it has the schema of the
page, and its place names the page and the slot where it stands.

* the page without rows is in order (`valid_empty`), and so is every page that is read
  (`Valid.of_decode`), whatever the bits behind the last slot are;
* inserting and deleting write one slot and its bit (`insert_cases`, `delete_cases`), and a write
  of the right row keeps the page in order (`Valid.putSlot`);
* hence every page that a history can lead to is in order (`Reachable.valid`).
-/
import RowStore.Page.Codec
import Mathlib.Data.List.Basic

namespace RowStore

/-- A row that is read has the schema by which it is read. -/
theorem Row.schema_of_read {schema : Schema} {bytes rest : Bytes} {row : Row}
    (h : Row.read schema bytes = (some row, rest)) : row.schema = schema := by
  unfold Row.read at h
  split at h
  · cases h
  · split at h
    · cases h
    · cases h
      rfl

namespace Page

/-! ## 1. What a slot holds -/

/-- The slot is in use just if it holds a row, and the row belongs there. -/
structure SlotFits (id : PageId) (schema : Schema) (bitmap : Bitmap) (slot : Nat)
    (content : Option Row) : Prop where
  used : bitmap.test slot = content.isSome
  schema : ∀ row ∈ content, row.schema = schema
  place : ∀ row ∈ content, row.place = some ⟨id, slot⟩

/-- Bitmap and slots have the sizes of the layout, and agree. -/
structure Valid (page : Page) : Prop where
  header : page.bitmap.bytes.size = page.layout.headerSize
  size : page.slots.size = page.layout.slots
  fits : ∀ slot content, page.slots[slot]? = some content →
    SlotFits page.id page.layout.schema page.bitmap slot content

namespace Valid

variable {page : Page}

theorem row?_lt (h : page.Valid) {slot : Nat} {row : Row} (hr : page.row? slot = some row) :
    slot < page.layout.slots := by
  rw [← h.size]
  rw [row?, Option.join_eq_some_iff] at hr
  exact (Array.getElem?_eq_some_iff.mp hr).1

theorem getElem?_slots (h : page.Valid) {slot : Nat} (hslot : slot < page.layout.slots) :
    page.slots[slot]? = some (page.row? slot) := by
  rw [← h.size] at hslot
  rw [row?, Array.getElem?_eq_getElem hslot, Option.join_some]

theorem fits_row? (h : page.Valid) {slot : Nat} (hslot : slot < page.layout.slots) :
    SlotFits page.id page.layout.schema page.bitmap slot (page.row? slot) :=
  h.fits slot _ (h.getElem?_slots hslot)

/-- A slot is in use if it holds a row. -/
theorem isUsed_eq (h : page.Valid) (slot : Nat) : page.isUsed slot = (page.row? slot).isSome := by
  by_cases hslot : slot < page.layout.slots
  · rw [isUsed, decide_eq_true hslot, Bool.true_and, (h.fits_row? hslot).used]
  · have hnone : page.row? slot = none := by
      cases hr : page.row? slot with
      | none => rfl
      | some row => exact absurd (h.row?_lt hr) hslot
    rw [isUsed, decide_eq_false hslot, Bool.false_and, hnone, Option.isSome_none]

theorem schema_eq (h : page.Valid) {slot : Nat} {row : Row} (hr : page.row? slot = some row) :
    row.schema = page.layout.schema :=
  (h.fits_row? (h.row?_lt hr)).schema row hr

theorem place_eq (h : page.Valid) {slot : Nat} {row : Row} (hr : page.row? slot = some row) :
    row.place = some ⟨page.id, slot⟩ :=
  (h.fits_row? (h.row?_lt hr)).place row hr

/-- The lowest free slot is a slot without a row, and those in front of it hold rows. -/
theorem firstFree?_eq_some (h : page.Valid) {slot : Nat} (hf : page.firstFree? = some slot) :
    slot < page.layout.slots ∧ page.row? slot = none ∧
      ∀ lower < slot, (page.row? lower).isSome := by
  rw [firstFree?, List.find?_range_eq_some] at hf
  obtain ⟨hfree, hmem, hlower⟩ := hf
  simp only [h.isUsed_eq, Bool.not_eq_true', Option.isSome_eq_false_iff, Bool.not_not]
    at hfree hlower
  exact ⟨List.mem_range.mp hmem, Option.isNone_iff_eq_none.mp hfree, hlower⟩

theorem firstFree?_eq_none (h : page.Valid) (hf : page.firstFree? = none) :
    ∀ slot < page.layout.slots, (page.row? slot).isSome := by
  intro slot hslot
  rw [firstFree?, List.find?_eq_none] at hf
  have := hf slot (List.mem_range.mpr hslot)
  simpa [h.isUsed_eq, Option.isSome_iff_ne_none] using this

/-- The slots are the map from slots to rows, written out. -/
theorem toList_slots (h : page.Valid) :
    page.slots.toList = (List.range page.layout.slots).map page.row? := by
  refine List.ext_getElem? fun slot => ?_
  rw [List.getElem?_map, Array.getElem?_toList]
  by_cases hslot : slot < page.layout.slots
  · rw [h.getElem?_slots hslot, List.getElem?_range hslot, Option.map_some]
  · rw [List.getElem?_eq_none (by rw [List.length_range]; omega), Option.map_none,
      Array.getElem?_eq_none (by rw [h.size]; omega)]

/-- The rows of a page are those of its slots, in the order of the slots. -/
theorem rows_eq_filterMap (h : page.Valid) :
    page.rows = (List.range page.layout.slots).filterMap page.row? := by
  rw [rows, h.toList_slots, List.flatMap_map, ← List.filterMap_eq_flatMap_toList]

theorem schema_of_mem (h : page.Valid) {row : Row} (hrow : row ∈ page.rows) :
    row.schema = page.layout.schema := by
  rw [h.rows_eq_filterMap, List.mem_filterMap] at hrow
  obtain ⟨slot, -, hr⟩ := hrow
  exact h.schema_eq hr

end Valid

/-! ## 2. Writing a slot -/

section PutSlot

variable (page : Page) (slot : Nat) (content : Option Row)

@[simp] theorem id_putSlot : (page.putSlot slot content).id = page.id := rfl

@[simp] theorem layout_putSlot : (page.putSlot slot content).layout = page.layout := rfl

@[simp] theorem dirty_putSlot : (page.putSlot slot content).dirty = page.dirty := rfl

@[simp] theorem before_putSlot : (page.putSlot slot content).before = page.before := rfl

theorem row?_putSlot (hslot : slot < page.slots.size) (i : Nat) :
    (page.putSlot slot content).row? i = if i = slot then content else page.row? i := by
  simp only [row?, putSlot, Array.getElem?_setIfInBounds]
  by_cases h : slot = i
  · subst h
    simp [hslot]
  · rw [if_neg h, if_neg (Ne.symm h)]

end PutSlot

/-- The bit of a slot stands in the bitmap. -/
theorem Valid.bit_lt {page : Page} (h : page.Valid) {slot : Nat}
    (hslot : slot < page.layout.slots) : slot / 8 < page.bitmap.bytes.size := by
  rw [h.header, Layout.headerSize]
  omega

/-- **Writing a row where it belongs, or none, keeps the page in order.** -/
theorem Valid.putSlot {page : Page} (h : page.Valid) {slot : Nat} {content : Option Row}
    (hslot : slot < page.layout.slots) (hschema : ∀ row ∈ content, row.schema = page.layout.schema)
    (hplace : ∀ row ∈ content, row.place = some ⟨page.id, slot⟩) :
    (page.putSlot slot content).Valid where
  header := by rw [layout_putSlot, ← h.header]; exact Bitmap.size_put ..
  size := by rw [layout_putSlot, ← h.size]; exact Array.size_setIfInBounds
  fits := by
    intro i c hc
    have htest : (page.putSlot slot content).bitmap.test i =
        if i = slot then content.isSome else page.bitmap.test i :=
      Bitmap.test_put page.bitmap (h.bit_lt hslot) content.isSome i
    simp only [Page.putSlot, Array.getElem?_setIfInBounds] at hc
    by_cases hi : slot = i
    · subst hi
      rw [if_pos rfl, if_pos (h.size ▸ hslot), Option.some.injEq] at hc
      subst hc
      exact ⟨by rw [htest, if_pos rfl], hschema, hplace⟩
    · rw [if_neg hi] at hc
      have hold := h.fits i c hc
      exact ⟨by rw [htest, if_neg (Ne.symm hi), hold.used], hold.schema, hold.place⟩

/-! ## 3. The operations -/

theorem valid_empty (id : PageId) (layout : Layout) : (empty id layout).Valid where
  header := Array.size_replicate
  size := Array.size_replicate
  fits := by
    intro slot content hc
    obtain ⟨hslot, rfl⟩ := Array.getElem?_eq_some_iff.mp hc
    have hbit : ((empty id layout).bitmap.bytes.getD (slot / 8) 0) = 0 := by
      simp only [empty, Bitmap.empty, Array.getD_eq_getD_getElem?, Array.getElem?_replicate]
      split <;> rfl
    have htest : (empty id layout).bitmap.test slot = false := by
      rw [Bitmap.test, hbit, Bitmap.bit, UInt8.toNat_zero, Nat.zero_testBit]
    simp only [empty, Array.getElem_replicate]
    exact ⟨htest, fun _ hr => absurd hr (Option.not_mem_none _),
      fun _ hr => absurd hr (Option.not_mem_none _)⟩

/-- All that an insertion can do to a page. -/
theorem insert_cases {page page' : Page} {row stored : Row}
    (h : page.insert row = .ok (page', stored)) :
    row.schema = page.layout.schema ∧ ∃ slot, page.firstFree? = some slot ∧
      stored = row.movedTo (some ⟨page.id, slot⟩) ∧ page' = page.putSlot slot (some stored) := by
  unfold insert at h
  split at h
  · cases h
  · rename_i hs
    cases hf : page.firstFree? with
    | none =>
      rw [hf] at h
      cases h
    | some slot =>
      rw [hf] at h
      cases h
      exact ⟨Decidable.not_not.mp hs, slot, rfl, rfl, rfl⟩

/-- All that a deletion can do to a page. -/
theorem delete_cases {page page' : Page} {row freed : Row}
    (h : page.delete row = .ok (page', freed)) :
    ∃ slot, row.place = some ⟨page.id, slot⟩ ∧ page.isUsed slot ∧
      page' = page.putSlot slot none ∧ freed = row.movedTo none := by
  unfold delete at h
  split at h
  · cases h
  · rename_i place hp
    split at h
    · cases h
    · rename_i hpage
      split at h
      · rename_i hused
        cases h
        exact ⟨place.slot, by rw [hp, ← Decidable.not_not.mp hpage], hused, rfl, rfl⟩
      · cases h

theorem Valid.insert {page page' : Page} (h : page.Valid) {row stored : Row}
    (hi : page.insert row = .ok (page', stored)) : page'.Valid := by
  obtain ⟨hs, slot, hf, rfl, rfl⟩ := insert_cases hi
  have hslot : slot < page.layout.slots := (h.firstFree?_eq_some hf).1
  refine h.putSlot hslot ?_ ?_
  · rintro _ ⟨⟩
    exact hs
  · rintro _ ⟨⟩
    rfl

theorem Valid.delete {page page' : Page} (h : page.Valid) {row freed : Row}
    (hd : page.delete row = .ok (page', freed)) : page'.Valid := by
  obtain ⟨slot, -, hused, rfl, -⟩ := delete_cases hd
  rw [h.isUsed_eq, Option.isSome_iff_exists] at hused
  obtain ⟨old, hold⟩ := hused
  exact h.putSlot (h.row?_lt hold) (fun _ hr => absurd hr (Option.not_mem_none _))
    fun _ hr => absurd hr (Option.not_mem_none _)

/-- The marks of a page have nothing to do with its order. -/
theorem Valid.withMarks {page : Page} (h : page.Valid) (dirty : Bool) (before : Bytes) :
    ({ page with dirty, before } : Page).Valid :=
  ⟨h.header, h.size, h.fits⟩

/-! ## 4. Reading -/

theorem fits_of_decodeSlot {id : PageId} {schema : Schema} {bitmap : Bitmap} {slot : Nat}
    {bytes : Bytes} {content : Option Row}
    (h : decodeSlot id schema bitmap slot bytes = .ok content) :
    SlotFits id schema bitmap slot content := by
  unfold decodeSlot at h
  split at h
  · rename_i hbit
    split at h
    · rename_i row rest hread
      cases h
      refine ⟨hbit, ?_, ?_⟩
      · rintro _ ⟨⟩
        change row.schema = schema
        exact Row.schema_of_read hread
      · rintro _ ⟨⟩
        rfl
    · cases h
  · rename_i hbit
    cases h
    exact ⟨eq_false_of_ne_true hbit, fun _ hr => absurd hr (Option.not_mem_none _),
      fun _ hr => absurd hr (Option.not_mem_none _)⟩

/-- As many slots are read as were asked for, and each fits its place.  By induction on their
number; the place of the first one moves along. -/
theorem fits_of_decodeSlots {id : PageId} {schema : Schema} {bitmap : Bitmap} {first count : Nat}
    {bytes : Bytes} {slots : List (Option Row)}
    (h : decodeSlots id schema bitmap first count bytes = .ok slots) :
    slots.length = count ∧ ∀ i content, slots[i]? = some content →
      SlotFits id schema bitmap (first + i) content := by
  induction count generalizing first bytes slots with
  | zero =>
    cases h
    exact ⟨rfl, fun i content hc => absurd hc (by simp)⟩
  | succ count ih =>
    simp only [decodeSlots] at h
    cases hs : decodeSlot id schema bitmap first (bytes.take schema.width) with
    | error e =>
      rw [hs] at h
      cases h
    | ok slot =>
      cases hr : decodeSlots id schema bitmap (first + 1) count (bytes.drop schema.width) with
      | error e =>
        rw [hs, hr] at h
        cases h
      | ok rest =>
        rw [hs, hr] at h
        cases h
        obtain ⟨hlen, hrest⟩ := ih hr
        refine ⟨congrArg (· + 1) hlen, fun i content hc => ?_⟩
        cases i with
        | zero =>
          cases hc
          exact fits_of_decodeSlot hs
        | succ i =>
          have hfit := hrest i content hc
          rwa [Nat.add_assoc, Nat.add_comm 1 i] at hfit

/-- All that reading an image can give. -/
theorem decode_cases {id : PageId} {layout : Layout} {image : Bytes} {page : Page}
    (h : decode id layout image = .ok page) :
    image.length = layout.pageSize ∧ ∃ slots : List (Option Row),
      decodeSlots id layout.schema ⟨(image.take layout.headerSize).toArray⟩ 0 layout.slots
        (image.drop layout.headerSize) = .ok slots ∧
      page =
        ⟨id, layout, ⟨(image.take layout.headerSize).toArray⟩, slots.toArray, false, image⟩ := by
  simp only [decode] at h
  split at h
  · cases h
  · rename_i hlen
    refine ⟨Decidable.not_not.mp hlen, ?_⟩
    cases hs : decodeSlots id layout.schema ⟨(image.take layout.headerSize).toArray⟩ 0 layout.slots
        (image.drop layout.headerSize) with
    | error e =>
      rw [hs] at h
      cases h
    | ok slots =>
      rw [hs] at h
      cases h
      exact ⟨slots, rfl, rfl⟩

/-- **A page that is read is in order**, whatever the image holds besides. -/
theorem Valid.of_decode {id : PageId} {layout : Layout} {image : Bytes} {page : Page}
    (h : decode id layout image = .ok page) : page.Valid := by
  obtain ⟨hlen, slots, hslots, rfl⟩ := decode_cases h
  obtain ⟨hcount, hfits⟩ := fits_of_decodeSlots hslots
  have hheader := layout.header_add_slots_le
  refine ⟨?_, hcount, fun slot content hc => ?_⟩
  · simp only [List.size_toArray, List.length_take]
    omega
  · have hfit := hfits slot content (by simpa using hc)
    rwa [Nat.zero_add] at hfit

/-- An image that is no page is reported as corrupt. -/
theorem corrupt_of_decodeSlots {id : PageId} {schema : Schema} {bitmap : Bitmap}
    {first count : Nat} {bytes : Bytes} {e : Error}
    (h : decodeSlots id schema bitmap first count bytes = .error e) :
    ∃ fault, e = .corrupt id fault := by
  induction count generalizing first bytes with
  | zero => cases h
  | succ count ih =>
    simp only [decodeSlots] at h
    cases hs : decodeSlot id schema bitmap first (bytes.take schema.width) with
    | error e' =>
      rw [hs] at h
      cases h
      unfold decodeSlot at hs
      split at hs
      · split at hs
        · cases hs
        · cases hs
          exact ⟨_, rfl⟩
      · cases hs
    | ok slot =>
      cases hr : decodeSlots id schema bitmap (first + 1) count (bytes.drop schema.width) with
      | error e' =>
        rw [hs, hr] at h
        cases h
        exact ih hr
      | ok rest =>
        rw [hs, hr] at h
        cases h

theorem corrupt_of_decode {id : PageId} {layout : Layout} {image : Bytes} {e : Error}
    (h : decode id layout image = .error e) : ∃ fault, e = .corrupt id fault := by
  simp only [decode] at h
  split at h
  · cases h
    exact ⟨_, rfl⟩
  · cases hs : decodeSlots id layout.schema ⟨(image.take layout.headerSize).toArray⟩ 0 layout.slots
        (image.drop layout.headerSize) with
    | error e' =>
      rw [hs] at h
      cases h
      exact corrupt_of_decodeSlots hs
    | ok slots =>
      rw [hs] at h
      cases h

/-! ## 5. Histories -/

/-- What is done with a page. -/
inductive Op where
  | insert (row : Row)
  | delete (row : Row)
  | mark (dirty : Bool)
  | capture

/-- The page behind an operation; one that fails leaves it as it is. -/
def perform (page : Page) : Op → Page
  | .insert row => (page.insert row).toOption.elim page (·.1)
  | .delete row => (page.delete row).toOption.elim page (·.1)
  | .mark dirty => page.mark dirty
  | .capture => page.capture

/-- The pages that there can be: the page without rows, every page that can be read, and what
operations make of them. -/
inductive Reachable (id : PageId) (layout : Layout) : Page → Prop
  | empty : Reachable id layout (Page.empty id layout)
  | decode {image : Bytes} {page : Page} (h : Page.decode id layout image = .ok page) :
    Reachable id layout page
  | perform {page : Page} (h : Reachable id layout page) (op : Op) :
    Reachable id layout (page.perform op)

/-- **One operation** keeps a page in order and what it is the page of, whether it succeeds or
fails. -/
theorem Valid.perform {page : Page} (h : page.Valid) (op : Op) :
    (page.perform op).Valid ∧ (page.perform op).id = page.id ∧
      (page.perform op).layout = page.layout := by
  cases op with
  | insert row =>
    cases hi : page.insert row with
    | error e =>
      simp only [Page.perform, hi]
      exact ⟨h, rfl, rfl⟩
    | ok result =>
      simp only [Page.perform, hi, Except.toOption, Option.elim]
      obtain ⟨-, slot, -, -, hpage⟩ := insert_cases hi
      exact ⟨h.insert hi, by rw [hpage, id_putSlot], by rw [hpage, layout_putSlot]⟩
  | delete row =>
    cases hd : page.delete row with
    | error e =>
      simp only [Page.perform, hd]
      exact ⟨h, rfl, rfl⟩
    | ok result =>
      simp only [Page.perform, hd, Except.toOption, Option.elim]
      obtain ⟨slot, -, -, hpage, -⟩ := delete_cases hd
      exact ⟨h.delete hd, by rw [hpage, id_putSlot], by rw [hpage, layout_putSlot]⟩
  | mark dirty => exact ⟨h.withMarks dirty page.before, rfl, rfl⟩
  | capture => exact ⟨h.withMarks page.dirty page.encode, rfl, rfl⟩

/-- The image from before the changes is left until the page is captured anew. -/
theorem before_perform {op : Op} (h : op ≠ .capture) (page : Page) :
    (page.perform op).before = page.before := by
  cases op with
  | insert row =>
    cases hi : page.insert row with
    | error e => simp only [perform, hi, Except.toOption, Option.elim]
    | ok result =>
      obtain ⟨-, slot, -, -, hpage⟩ := insert_cases hi
      simp only [perform, hi, Except.toOption, Option.elim, hpage, before_putSlot]
  | delete row =>
    cases hd : page.delete row with
    | error e => simp only [perform, hd, Except.toOption, Option.elim]
    | ok result =>
      obtain ⟨slot, -, -, hpage, -⟩ := delete_cases hd
      simp only [perform, hd, Except.toOption, Option.elim, hpage, before_putSlot]
  | mark dirty => rfl
  | capture => exact absurd rfl h

/-- **Every page that there can be is in order.** -/
theorem Reachable.valid {id : PageId} {layout : Layout} {page : Page}
    (h : Reachable id layout page) : page.Valid ∧ page.id = id ∧ page.layout = layout := by
  induction h with
  | empty => exact ⟨valid_empty id layout, rfl, rfl⟩
  | decode h =>
    refine ⟨Valid.of_decode h, ?_⟩
    obtain ⟨-, slots, -, rfl⟩ := decode_cases h
    exact ⟨rfl, rfl⟩
  | perform h op ih =>
    obtain ⟨hv, hid, hlayout⟩ := ih
    obtain ⟨hv', hid', hlayout'⟩ := hv.perform op
    exact ⟨hv', hid'.trans hid, hlayout'.trans hlayout⟩

end Page
end RowStore
