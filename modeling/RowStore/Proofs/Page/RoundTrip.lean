/-
# A page reads back from its image

The image of a page is cut by numbers only: so many bytes of bitmap, and one slot after another of
the width of a row, in use or not.  Reading cuts at the same places (`decodeSlots_encodeSlots`), and
the row codec does the rest.

The result for all pages that there can be is `Reachable.reads_back`.  It holds for pages whose
images came from a disk with bits behind the last slot set: the bitmap is written as it is.

The name of a page is not in its image.  A page that is written to the place of another reads back as
that page (`Valid.decode_encode_named`).
-/
import RowStore.Proofs.Page.Valid

namespace RowStore
namespace Page

/-! ## 1. The length of an image -/

theorem length_encodeSlot {width : Nat} {content : Option Row}
    (h : ∀ row ∈ content, row.schema.width = width) :
    (encodeSlot width content).length = width := by
  cases content with
  | none => exact List.length_replicate
  | some row => rw [encodeSlot, Row.length_encode, h row rfl]

theorem length_encodeSlots {width : Nat} {slots : List (Option Row)}
    (h : ∀ content ∈ slots, ∀ row ∈ content, row.schema.width = width) :
    (slots.flatMap (encodeSlot width)).length = slots.length * width := by
  induction slots with
  | nil => simp
  | cons content slots ih =>
    have hhead : (encodeSlot width content).length = width :=
      length_encodeSlot (h content List.mem_cons_self)
    have htail := ih fun c hc => h c (List.mem_cons_of_mem _ hc)
    rw [List.flatMap_cons, List.length_append, hhead, htail, List.length_cons, Nat.succ_mul,
      Nat.add_comm]

namespace Valid

variable {page : Page}

theorem width_of_mem (h : page.Valid) :
    ∀ content ∈ page.slots.toList, ∀ row ∈ content, row.schema.width = page.layout.width := by
  intro content hc row hrow
  obtain ⟨slot, hslot⟩ := List.mem_iff_getElem?.mp hc
  rw [Array.getElem?_toList] at hslot
  rw [(h.fits slot content hslot).schema row hrow, Layout.width]

/-- Bitmap and slots take what the layout says, and the rest of the page is left over. -/
theorem length_body (h : page.Valid) :
    (page.bitmap.bytes.toList ++
      page.slots.toList.flatMap (encodeSlot page.layout.width)).length =
        page.layout.headerSize + page.layout.slots * page.layout.width := by
  rw [List.length_append, length_encodeSlots h.width_of_mem, Array.length_toList,
    Array.length_toList, h.header, h.size]

/-- The image of a page has the size of a page. -/
theorem length_encode (h : page.Valid) : page.encode.length = page.layout.pageSize := by
  have hbody := h.length_body
  have hle := page.layout.header_add_slots_le
  rw [encode, List.length_append, List.length_replicate, hbody]
  omega

end Valid

/-! ## 2. Cutting the image -/

theorem decodeSlot_encodeSlot {id : PageId} {schema : Schema} {bitmap : Bitmap} {slot : Nat}
    {content : Option Row} (h : SlotFits id schema bitmap slot content) :
    decodeSlot id schema bitmap slot (encodeSlot schema.width content) = .ok content := by
  cases content with
  | none => rw [decodeSlot, if_neg (by rw [h.used]; exact Bool.false_ne_true)]
  | some row =>
    have hread : Row.read schema row.encode = (some (row.movedTo none), []) := by
      have := Row.read_encode row []
      rwa [List.append_nil, h.schema row rfl] at this
    have hplace : (row.movedTo none).movedTo (some ⟨id, slot⟩) = row := by
      rw [← h.place row rfl]
      rfl
    rw [decodeSlot, if_pos (show bitmap.test slot = true from h.used), encodeSlot, hread]
    simp only [hplace]

/-- Slots that fit their places are cut out of their bytes as they were written, whatever follows
them.  By induction on the slots, the place of the first one moving along. -/
theorem decodeSlots_encodeSlots {id : PageId} {schema : Schema} {bitmap : Bitmap} {first : Nat}
    {slots : List (Option Row)} (rest : Bytes)
    (h : ∀ i content, slots[i]? = some content → SlotFits id schema bitmap (first + i) content) :
    decodeSlots id schema bitmap first slots.length
      (slots.flatMap (encodeSlot schema.width) ++ rest) = .ok slots := by
  induction slots generalizing first with
  | nil => rfl
  | cons content slots ih =>
    have hhead : SlotFits id schema bitmap first content := h 0 content rfl
    have htail : ∀ i c, slots[i]? = some c → SlotFits id schema bitmap (first + 1 + i) c := by
      intro i c hc
      have hfit := h (i + 1) c hc
      rwa [Nat.add_comm i 1, ← Nat.add_assoc] at hfit
    have hwidth : (encodeSlot schema.width content).length = schema.width :=
      length_encodeSlot fun row hrow => by rw [hhead.schema row hrow]
    rw [List.flatMap_cons, List.append_assoc, List.length_cons, decodeSlots,
      List.take_left' hwidth, List.drop_left' hwidth, decodeSlot_encodeSlot hhead, ih htail]
    rfl

/-! ## 3. The round trip -/

/-- A page in order reads back as it is, but for the two marks: it is unchanged since it was
written, and the image it was read from is the one before the next changes. -/
theorem Valid.decode_encode {page : Page} (h : page.Valid) :
    decode page.id page.layout page.encode =
      .ok { page with dirty := false, before := page.encode } := by
  have hbitmap : page.bitmap.bytes.toList.length = page.layout.headerSize := h.header
  have hslots : page.slots.toList.length = page.layout.slots := h.size
  have himage : page.encode = page.bitmap.bytes.toList ++
      (page.slots.toList.flatMap (encodeSlot page.layout.width) ++
        List.replicate (page.layout.pageSize -
          (page.layout.headerSize + page.layout.slots * page.layout.width)) 0) := by
    rw [encode, h.length_body, List.append_assoc]
  have htake : page.encode.take page.layout.headerSize = page.bitmap.bytes.toList := by
    rw [himage, List.take_left' hbitmap]
  have hcut : decodeSlots page.id page.layout.schema page.bitmap 0 page.layout.slots
      (page.encode.drop page.layout.headerSize) = .ok page.slots.toList := by
    rw [himage, List.drop_left' hbitmap, ← hslots]
    refine decodeSlots_encodeSlots _ fun i content hc => ?_
    rw [Nat.zero_add]
    exact h.fits i content (by rwa [Array.getElem?_toList] at hc)
  simp only [decode, h.length_encode, ne_eq, not_true, if_false, htake, Array.toArray_toList, hcut]
  rfl

theorem encode_empty (id : PageId) (layout : Layout) :
    (empty id layout).encode = zeroImage layout.pageSize := by
  have hbody : (empty id layout).bitmap.bytes.toList ++
      (empty id layout).slots.toList.flatMap (encodeSlot layout.width) =
        List.replicate (layout.headerSize + layout.slots * layout.width) 0 := by
    simp only [empty, Bitmap.empty, Array.toList_replicate, List.flatMap_replicate, encodeSlot,
      List.flatten_replicate_replicate, List.replicate_append_replicate]
  have hle := layout.header_add_slots_le
  have hlayout : (empty id layout).layout = layout := rfl
  rw [encode, hlayout, hbody, List.length_replicate, List.replicate_append_replicate, zeroImage]
  congr 1
  omega

/-- Zeros are the image of the page without rows. -/
theorem decode_zeroImage (id : PageId) (layout : Layout) :
    decode id layout (zeroImage layout.pageSize) = .ok (empty id layout) := by
  have h := (valid_empty id layout).decode_encode
  rw [encode_empty] at h
  exact h

/-- **Pages survive being written and read.**  The image of a page that there can be has the size of
a page, and reads back with the same bitmap, bits behind the last slot included, and the same rows
in the same slots; and every row knows the page and the slot where it stands. -/
theorem Reachable.reads_back {id : PageId} {layout : Layout} {page : Page}
    (h : Reachable id layout page) :
    page.encode.length = layout.pageSize ∧
      Page.decode id layout page.encode =
        .ok { page with dirty := false, before := page.encode } ∧
      ∀ slot row, page.row? slot = some row → row.place = some ⟨id, slot⟩ := by
  obtain ⟨hv, rfl, rfl⟩ := h.valid
  exact ⟨hv.length_encode, hv.decode_encode, fun slot row hr => hv.place_eq hr⟩

/-- A page of one slot whose image has the seven bits behind it set, and a row that comes later. -/
theorem Reachable.reads_back_strayBits :
    ∃ (layout : Layout) (page : Page) (row : Row), row.values = [.int 7] ∧
      Page.decode ⟨0, 3⟩ layout [254, 0, 0, 0, 0, 0, 0, 0] = .ok page ∧
      (page.perform (.insert row)).row? 0 = some (row.movedTo (some ⟨⟨0, 3⟩, 0⟩)) ∧
      (page.perform (.insert row)).encode.length = layout.pageSize ∧
      Page.decode ⟨0, 3⟩ layout (page.perform (.insert row)).encode =
        .ok { page.perform (.insert row) with
          dirty := false, before := (page.perform (.insert row)).encode } ∧
      ∀ slot stored, (page.perform (.insert row)).row? slot = some stored →
        stored.place = some ⟨⟨0, 3⟩, slot⟩ :=
  let schema : Schema := ⟨[⟨"n", .int⟩]⟩
  let layout : Layout := ⟨schema, 8, 1, by decide, by decide, by decide, by decide⟩
  let page : Page := ⟨⟨0, 3⟩, layout, ⟨#[254]⟩, #[none], false, [254, 0, 0, 0, 0, 0, 0, 0]⟩
  let row : Row := ⟨schema, [.int 7], none, rfl⟩
  have hread : Page.decode ⟨0, 3⟩ layout [254, 0, 0, 0, 0, 0, 0, 0] = .ok page := by cbv
  ⟨layout, page, row, rfl, hread, by decide +kernel,
    ((Reachable.decode hread).perform (.insert row)).reads_back⟩

/-! ## 4. The same page under another name -/

/-- The page under another name.  Its rows stand in the same slots there. -/
def named (page : Page) (id : PageId) : Page :=
  { page with
    id
    slots := page.slots.mapIdx fun slot content => content.map (·.movedTo (some ⟨id, slot⟩)) }

theorem getElem?_slots_named (page : Page) (id : PageId) (slot : Nat) :
    (page.named id).slots[slot]? =
      page.slots[slot]?.map fun content => content.map (·.movedTo (some ⟨id, slot⟩)) := by
  rw [named, Array.getElem?_mapIdx]

/-- The name of a page is not in its image. -/
theorem encode_named (page : Page) (id : PageId) : (page.named id).encode = page.encode := by
  have hslots : (page.named id).slots.toList.map (encodeSlot page.layout.width) =
      page.slots.toList.map (encodeSlot page.layout.width) := by
    refine List.ext_getElem? fun slot => ?_
    rw [List.getElem?_map, List.getElem?_map, Array.getElem?_toList, Array.getElem?_toList,
      getElem?_slots_named, Option.map_map]
    refine congrArg (Option.map · _) (funext fun content => ?_)
    cases content <;> rfl
  have hlayout : (page.named id).layout = page.layout := rfl
  rw [encode, encode, hlayout, List.flatMap_def, List.flatMap_def, hslots]
  rfl

namespace Valid

variable {page : Page}

theorem named (h : page.Valid) (id : PageId) : (page.named id).Valid := by
  constructor
  · exact h.header
  · exact Array.size_mapIdx.trans h.size
  · intro slot content hcontent
    rw [getElem?_slots_named, Option.map_eq_some_iff] at hcontent
    obtain ⟨old, hold, rfl⟩ := hcontent
    obtain ⟨hused, hschema, -⟩ := h.fits slot old hold
    cases old with
    | none => exact ⟨hused, by simp, by simp⟩
    | some row =>
      constructor
      · exact hused
      · rintro _ ⟨⟩
        exact hschema row rfl
      · rintro _ ⟨⟩
        rfl

/-- Under its own name a page is what it is. -/
theorem named_self (h : page.Valid) : page.named page.id = page := by
  have hslots : (page.named page.id).slots = page.slots := by
    refine Array.ext_getElem? fun slot => ?_
    rw [getElem?_slots_named]
    cases hslot : page.slots[slot]? with
    | none => rfl
    | some content =>
      cases content with
      | none => rfl
      | some row =>
        have hplace := (h.fits slot _ hslot).place row rfl
        rw [Option.map_some, Option.map_some, ← hplace]
        rfl
  calc page.named page.id = { page with slots := (page.named page.id).slots } := rfl
    _ = page := by rw [hslots]

/-- A page may be written to a place that is not its own, and reads back as the page of that
place. -/
theorem decode_encode_named (h : page.Valid) (id : PageId) :
    decode id page.layout page.encode =
      .ok { page.named id with dirty := false, before := page.encode } := by
  have hread := (h.named id).decode_encode
  rwa [encode_named] at hread

end Valid

end Page
end RowStore
