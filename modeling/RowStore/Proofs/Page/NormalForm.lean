/-
# Which images are pages, and the normal form of an image

Reading a page looks at the bitmap and, in the slots whose bits are set, at the bytes that mean
something; everything else in an image is passed over.  Hence many images are read as one page, and
writing that page gives one of them: the image with zeros at every byte that was passed over.

* `Layout.Legible` says which images are pages, `Layout.Kept` which of their bytes mean something,
  and `Layout.Normal` what it is to be the normal form of an image.  None of them mentions a reader;
* `decode_cases_of_error` names the fault of an image that is no page: its length, or the first slot
  in use that holds no row;
* `decode_normal_form` is the whole: the images that are read are the legible ones, all others are
  corrupt, and a page is written as the normal form of any image it was read from.

Of the two images of a page, the normal form is a fixed point: reading it gives an equal page, which
is written as before.
-/
import RowStore.Proofs.Page.Fields
import RowStore.Proofs.Page.RoundTrip

namespace RowStore

/-! ## 1. Images -/

/-- The image has the bit of the slot set. -/
def marked (image : Bytes) (slot : Nat) : Bool :=
  (image.getD (slot / 8) 0).toNat.testBit (slot % 8)

namespace Layout

variable (layout : Layout)

/-- Where a slot starts in an image. -/
def slotStart (slot : Nat) : Nat := layout.headerSize + slot * layout.width

/-- The bytes of a slot. -/
def slotBytes (image : Bytes) (slot : Nat) : Bytes :=
  (image.drop (layout.slotStart slot)).take layout.width

/-- The image is a page: it is as long as one, and every field of every slot in use holds a
value. -/
def Legible (image : Bytes) : Prop :=
  image.length = layout.pageSize ∧ ∀ slot < layout.slots, marked image slot →
    Row.Legible layout.schema.columns (layout.slotBytes image slot)

/-- The byte means something: it is one of the bitmap, or of a number, a length or a text in a slot
in use. -/
def Kept (image : Bytes) (pos : Nat) : Prop :=
  pos < layout.headerSize ∨ ∃ slot < layout.slots, marked image slot ∧
    layout.slotStart slot ≤ pos ∧
      Row.Kept layout.schema.columns (layout.slotBytes image slot) (pos - layout.slotStart slot)

/-- The bytes that mean something are those of the image, and all others are zero. -/
def Normal (image written : Bytes) : Prop :=
  written.length = layout.pageSize ∧ ∀ pos < layout.pageSize,
    (layout.Kept image pos → written[pos]? = image[pos]?) ∧
      (¬ layout.Kept image pos → written[pos]? = some 0)

variable {layout}

theorem slotStart_add_width_le {slot : Nat} (hslot : slot < layout.slots) :
    layout.slotStart slot + layout.width ≤ layout.pageSize := by
  have hle := layout.header_add_slots_le
  have hmul : (slot + 1) * layout.width ≤ layout.slots * layout.width :=
    Nat.mul_le_mul_right _ hslot
  rw [Nat.succ_mul] at hmul
  rw [slotStart]
  omega

theorem length_slotBytes {image : Bytes} (hlen : image.length = layout.pageSize) {slot : Nat}
    (hslot : slot < layout.slots) : (layout.slotBytes image slot).length = layout.width := by
  have hle := slotStart_add_width_le hslot
  rw [slotBytes, List.length_take, List.length_drop]
  omega

/-- The bytes of a slot are bytes of the image. -/
theorem getElem?_slotBytes (image : Bytes) (slot : Nat) {off : Nat} (hoff : off < layout.width) :
    (layout.slotBytes image slot)[off]? = image[layout.slotStart slot + off]? := by
  rw [slotBytes, List.getElem?_take_of_lt hoff, List.getElem?_drop]

/-- A position in a slot is in that slot only. -/
theorem eq_of_slotStart {slot slot' off off' : Nat} (hoff : off < layout.width)
    (hoff' : off' < layout.width)
    (h : layout.slotStart slot + off = layout.slotStart slot' + off') :
    slot = slot' ∧ off = off' := by
  have hpos : 0 < layout.width := layout.width_pos
  simp only [slotStart, Nat.add_assoc, Nat.add_right_inj] at h
  have hdiv : (slot * layout.width + off) / layout.width = slot := by
    rw [Nat.mul_comm, Nat.mul_add_div hpos, Nat.div_eq_of_lt hoff, Nat.add_zero]
  have hdiv' : (slot' * layout.width + off') / layout.width = slot' := by
    rw [Nat.mul_comm, Nat.mul_add_div hpos, Nat.div_eq_of_lt hoff', Nat.add_zero]
  have hslot : slot = slot' := by rw [← hdiv, h, hdiv']
  subst hslot
  exact ⟨rfl, by omega⟩

/-- The bitmap of an image has the bits of the image. -/
theorem test_bitmap (image : Bytes) {slot : Nat} (hslot : slot < layout.slots) :
    (⟨(image.take layout.headerSize).toArray⟩ : Bitmap).test slot = marked image slot := by
  have hbyte : slot / 8 < layout.headerSize := by
    rw [headerSize]
    omega
  simp only [Bitmap.test, Bitmap.bit, marked, Array.getD_eq_getD_getElem?, List.getElem?_toArray,
    List.getElem?_take_of_lt hbyte, List.getD_eq_getElem?_getD]

end Layout

namespace Page

/-! ## 2. Reading the slots -/

variable {id : PageId} {schema : Schema} {bitmap : Bitmap} {slot : Nat} {bytes : Bytes}

/-- A slot in use with a value in each field holds the row of the values. -/
theorem decodeSlot_of_legible (hlen : schema.width ≤ bytes.length) (hbit : bitmap.test slot)
    (h : Row.Legible schema.columns bytes) :
    ∃ row, decodeSlot id schema bitmap slot bytes = .ok (some row) ∧
      Row.Normal schema.columns bytes row.encode := by
  obtain ⟨row, hread, -, hnormal⟩ := Row.read_of_legible hlen h
  refine ⟨row.movedTo (some ⟨id, slot⟩), ?_, hnormal⟩
  rw [decodeSlot, if_pos hbit, hread]

/-- One with a field that holds no value makes the image corrupt. -/
theorem decodeSlot_of_not_legible (hlen : schema.width ≤ bytes.length) (hbit : bitmap.test slot)
    (h : ¬ Row.Legible schema.columns bytes) :
    decodeSlot id schema bitmap slot bytes = .error (.corrupt id (.slot slot)) := by
  obtain ⟨field, taken, -, hread⟩ := Row.read_of_not_legible hlen h
  rw [decodeSlot, if_pos hbit, hread]

/-- A slot that is not in use is not looked at. -/
theorem decodeSlot_of_clear (hbit : bitmap.test slot = false) :
    decodeSlot id schema bitmap slot bytes = .ok none := by
  rw [decodeSlot, hbit]
  rfl

/-- What the slots of an image come to, slot by slot: all are read, or one is corrupt and those in
front of it are read.  By induction on their number; the place of the first one moves along. -/
theorem decodeSlots_cases (id : PageId) (schema : Schema) (bitmap : Bitmap) (first count : Nat)
    (bytes : Bytes) :
    (∃ slots, decodeSlots id schema bitmap first count bytes = .ok slots ∧ ∀ i < count,
      ∃ content, slots[i]? = some content ∧ decodeSlot id schema bitmap (first + i)
        ((bytes.drop (i * schema.width)).take schema.width) = .ok content) ∨
    ∃ e, decodeSlots id schema bitmap first count bytes = .error e ∧ ∃ i < count,
      decodeSlot id schema bitmap (first + i)
        ((bytes.drop (i * schema.width)).take schema.width) = .error e ∧ ∀ j < i, ∃ content,
          decodeSlot id schema bitmap (first + j)
            ((bytes.drop (j * schema.width)).take schema.width) = .ok content := by
  induction count generalizing first bytes with
  | zero =>
    left
    refine ⟨[], rfl, ?_⟩
    intro i hi
    exact absurd hi (Nat.not_lt_zero i)
  | succ count ih =>
    -- the slots behind the first one, counted from here
    have hshift : ∀ i, decodeSlot id schema bitmap (first + 1 + i)
        (((bytes.drop schema.width).drop (i * schema.width)).take schema.width) =
        decodeSlot id schema bitmap (first + (i + 1))
          ((bytes.drop ((i + 1) * schema.width)).take schema.width) := by
      intro i
      rw [List.drop_drop, Nat.succ_mul, Nat.add_comm schema.width, Nat.add_assoc, Nat.add_comm 1]
    have hfront : decodeSlot id schema bitmap (first + 0)
        ((bytes.drop (0 * schema.width)).take schema.width) =
        decodeSlot id schema bitmap first (bytes.take schema.width) := by
      rw [Nat.zero_mul, List.drop_zero, Nat.add_zero]
    cases hhead : decodeSlot id schema bitmap first (bytes.take schema.width) with
    | error e =>
      right
      refine ⟨e, ?_, 0, Nat.succ_pos count, hfront.trans hhead, ?_⟩
      · rw [decodeSlots, hhead]
        rfl
      · intro j hj
        exact absurd hj (Nat.not_lt_zero j)
    | ok content =>
      rcases ih (first + 1) (bytes.drop schema.width) with ⟨slots, hok, hslots⟩ | ⟨e, herr, hfault⟩
      · left
        refine ⟨content :: slots, ?_, ?_⟩
        · rw [decodeSlots, hhead, hok]
          rfl
        · intro i hi
          cases i with
          | zero => exact ⟨content, rfl, hfront.trans hhead⟩
          | succ i =>
            obtain ⟨c, hc, hslot⟩ := hslots i (Nat.lt_of_succ_lt_succ hi)
            exact ⟨c, hc, (hshift i).symm.trans hslot⟩
      · right
        obtain ⟨i, hi, hbad, hbefore⟩ := hfault
        refine ⟨e, ?_, i + 1, Nat.succ_lt_succ hi, (hshift i).symm.trans hbad, ?_⟩
        · rw [decodeSlots, hhead, herr]
          rfl
        · intro j hj
          cases j with
          | zero => exact ⟨content, hfront.trans hhead⟩
          | succ j =>
            obtain ⟨c, hc⟩ := hbefore j (Nat.lt_of_succ_lt_succ hj)
            exact ⟨c, (hshift j).symm.trans hc⟩

/-! ## 3. Which images are pages -/

variable {layout : Layout} {image : Bytes}

/-- The slots are cut out behind the bitmap. -/
theorem take_drop_slot (image : Bytes) (slot : Nat) :
    ((image.drop layout.headerSize).drop (slot * layout.schema.width)).take layout.schema.width =
      layout.slotBytes image slot := by
  rw [List.drop_drop, Layout.slotBytes, Layout.slotStart, Layout.width]

/-- What reading one slot of an image of the right length comes to. -/
theorem decodeSlot_image_cases (id : PageId) (hlen : image.length = layout.pageSize) {slot : Nat}
    (hslot : slot < layout.slots) :
    (∃ content, decodeSlot id layout.schema ⟨(image.take layout.headerSize).toArray⟩ slot
        (layout.slotBytes image slot) = .ok content ∧
      (marked image slot → Row.Legible layout.schema.columns (layout.slotBytes image slot)) ∧
      (content = none → ¬ marked image slot) ∧ ∀ row ∈ content, marked image slot ∧
        Row.Normal layout.schema.columns (layout.slotBytes image slot) row.encode) ∨
    decodeSlot id layout.schema ⟨(image.take layout.headerSize).toArray⟩ slot
        (layout.slotBytes image slot) = .error (.corrupt id (.slot slot)) ∧
      marked image slot ∧ ¬ Row.Legible layout.schema.columns (layout.slotBytes image slot) := by
  have hwidth : layout.schema.width ≤ (layout.slotBytes image slot).length := by
    rw [Layout.length_slotBytes hlen hslot]
    exact Nat.le_refl _
  have htest := Layout.test_bitmap image hslot
  cases hbit : marked image slot with
  | false =>
    left
    refine ⟨none, decodeSlot_of_clear (htest.trans hbit), ?_, ?_, ?_⟩
    · intro h
      cases h
    · intro _ h
      cases h
    · intro row hrow
      cases hrow
  | true =>
    by_cases hlegible : Row.Legible layout.schema.columns (layout.slotBytes image slot)
    · left
      obtain ⟨row, hrow, hnormal⟩ :=
        @decodeSlot_of_legible id _ _ _ _ hwidth (htest.trans hbit) hlegible
      refine ⟨some row, hrow, fun _ => hlegible, ?_, ?_⟩
      · intro h
        cases h
      · rintro _ ⟨⟩
        exact ⟨rfl, hnormal⟩
    · right
      exact ⟨decodeSlot_of_not_legible hwidth (htest.trans hbit) hlegible, rfl, hlegible⟩

/-- **Why an image is no page**: it has not the length of one, or there is a slot in use with a
field that holds no value, and the first such slot is named. -/
theorem decode_cases_of_error {e : Error} (h : decode id layout image = .error e) :
    (image.length ≠ layout.pageSize ∧
      e = .corrupt id (.length layout.pageSize image.length)) ∨
    (image.length = layout.pageSize ∧ ∃ slot < layout.slots, marked image slot ∧
      ¬ Row.Legible layout.schema.columns (layout.slotBytes image slot) ∧
      (∀ lower < slot, marked image lower →
        Row.Legible layout.schema.columns (layout.slotBytes image lower)) ∧
      e = .corrupt id (.slot slot)) := by
  by_cases hlen : image.length = layout.pageSize
  · right
    refine ⟨hlen, ?_⟩
    simp only [decode, hlen, ne_eq, not_true_eq_false, if_false] at h
    rcases decodeSlots_cases id layout.schema ⟨(image.take layout.headerSize).toArray⟩ 0
        layout.slots (image.drop layout.headerSize) with ⟨slots, hok, -⟩ | ⟨e', herr, i, hi, hbad,
          hbefore⟩
    · rw [hok] at h
      cases h
    · rw [herr] at h
      cases h
      simp only [Nat.zero_add, take_drop_slot] at hbad hbefore
      rcases decodeSlot_image_cases id hlen hi with ⟨content, hcontent, -⟩ | ⟨hfault, hbit, hnot⟩
      · rw [hcontent] at hbad
        cases hbad
      · rw [hfault] at hbad
        cases hbad
        refine ⟨i, hi, hbit, hnot, ?_, rfl⟩
        intro lower hlower hmarked
        obtain ⟨c, hc⟩ := hbefore lower hlower
        rcases decodeSlot_image_cases id hlen (Nat.lt_trans hlower hi) with ⟨_, _, hlegible, -⟩ | ⟨hf, -⟩
        · exact hlegible hmarked
        · rw [hf] at hc
          cases hc
  · left
    rw [decode, if_pos hlen] at h
    cases h
    exact ⟨hlen, rfl⟩

/-- What is known of a page that was read: the image is as long as a page, the bitmap is the one of
the image, and each slot holds what its bytes say. -/
structure ReadFrom (layout : Layout) (image : Bytes) (page : Page) : Prop where
  length : image.length = layout.pageSize
  bitmap : page.bitmap.bytes.toList = image.take layout.headerSize
  legible : ∀ slot < layout.slots, marked image slot →
    Row.Legible layout.schema.columns (layout.slotBytes image slot)
  free : ∀ slot < layout.slots, page.row? slot = none → ¬ marked image slot
  used : ∀ slot < layout.slots, ∀ row, page.row? slot = some row → marked image slot ∧
    Row.Normal layout.schema.columns (layout.slotBytes image slot) row.encode

theorem readFrom_of_decode {page : Page} (h : decode id layout image = .ok page) :
    ReadFrom layout image page := by
  obtain ⟨hlen, slots, hslots, rfl⟩ := decode_cases h
  -- each slot of the page is what was read from its bytes
  have hread : ∀ slot < layout.slots, decodeSlot id layout.schema
      ⟨(image.take layout.headerSize).toArray⟩ slot (layout.slotBytes image slot) =
        .ok (slots[slot]?.join) := by
    intro slot hslot
    rcases decodeSlots_cases id layout.schema ⟨(image.take layout.headerSize).toArray⟩ 0
        layout.slots (image.drop layout.headerSize) with ⟨slots', hok, hall⟩ | ⟨e, herr, -⟩
    · rw [hok] at hslots
      cases hslots
      obtain ⟨content, hc, hslot'⟩ := hall slot hslot
      rw [Nat.zero_add, take_drop_slot] at hslot'
      rw [hslot', hc, Option.join_some]
    · rw [herr] at hslots
      cases hslots
  have hcases : ∀ slot < layout.slots,
      (marked image slot → Row.Legible layout.schema.columns (layout.slotBytes image slot)) ∧
      (slots[slot]?.join = none → ¬ marked image slot) ∧
      ∀ row ∈ slots[slot]?.join, marked image slot ∧
        Row.Normal layout.schema.columns (layout.slotBytes image slot) row.encode := by
    intro slot hslot
    rcases decodeSlot_image_cases id hlen hslot with ⟨content, hcontent, hrest⟩ | ⟨hfault, -⟩
    · rw [hread slot hslot] at hcontent
      cases hcontent
      exact hrest
    · rw [hread slot hslot] at hfault
      cases hfault
  have hrow : ∀ slot, Page.row? ⟨id, layout, ⟨(image.take layout.headerSize).toArray⟩,
      slots.toArray, false, image⟩ slot = slots[slot]?.join := by
    intro slot
    rw [Page.row?, List.getElem?_toArray]
  refine ⟨hlen, rfl, fun slot hslot => (hcases slot hslot).1, ?_, ?_⟩
  · intro slot hslot hnone
    rw [hrow] at hnone
    exact (hcases slot hslot).2.1 hnone
  · intro slot hslot row hsome
    rw [hrow] at hsome
    exact (hcases slot hslot).2.2 row hsome

/-! ## 4. Writing what was read -/

/-- A byte of a slot, among all slots one after the other. -/
theorem getElem?_encodeSlots {width : Nat} {slots : List (Option Row)}
    (h : ∀ content ∈ slots, ∀ row ∈ content, row.schema.width = width) {slot off : Nat}
    {content : Option Row} (hoff : off < width) (hslot : slots[slot]? = some content) :
    (slots.flatMap (encodeSlot width))[slot * width + off]? = (encodeSlot width content)[off]? := by
  induction slots generalizing slot with
  | nil => cases hslot
  | cons head slots ih =>
    have hhead : (encodeSlot width head).length = width :=
      length_encodeSlot (h head List.mem_cons_self)
    rw [List.flatMap_cons]
    cases slot with
    | zero =>
      cases hslot
      rw [Nat.zero_mul, Nat.zero_add, List.getElem?_append_left (by omega)]
    | succ slot =>
      have hback : (slot + 1) * width + off - width = slot * width + off := by
        rw [Nat.succ_mul]
        omega
      rw [List.getElem?_append_right (by rw [hhead, Nat.succ_mul]; omega), hhead, hback]
      exact ih (fun c hc => h c (List.mem_cons_of_mem _ hc)) hslot

namespace Valid

variable {page : Page}

/-- The image of a page: the bitmap, the slots, and zeros. -/
theorem encode_eq (h : page.Valid) : page.encode = page.bitmap.bytes.toList ++
    (page.slots.toList.flatMap (encodeSlot page.layout.width) ++
      List.replicate (page.layout.pageSize -
        (page.layout.headerSize + page.layout.slots * page.layout.width)) 0) := by
  rw [encode, h.length_body, List.append_assoc]

theorem getElem?_encode_header (h : page.Valid) {pos : Nat} (hpos : pos < page.layout.headerSize) :
    page.encode[pos]? = page.bitmap.bytes.toList[pos]? := by
  have hheader : page.bitmap.bytes.toList.length = page.layout.headerSize := h.header
  rw [h.encode_eq, List.getElem?_append_left (by omega)]

theorem getElem?_encode_slot (h : page.Valid) {slot off : Nat} (hslot : slot < page.layout.slots)
    (hoff : off < page.layout.width) :
    page.encode[page.layout.slotStart slot + off]? =
      (encodeSlot page.layout.width (page.row? slot))[off]? := by
  have hheader : page.bitmap.bytes.toList.length = page.layout.headerSize := h.header
  have hslots : (page.slots.toList.flatMap (encodeSlot page.layout.width)).length =
      page.layout.slots * page.layout.width := by
    rw [length_encodeSlots h.width_of_mem, Array.length_toList, h.size]
  have hmul : (slot + 1) * page.layout.width ≤ page.layout.slots * page.layout.width :=
    Nat.mul_le_mul_right _ hslot
  rw [Nat.succ_mul] at hmul
  have hpos : page.layout.slotStart slot + off - page.layout.headerSize =
      slot * page.layout.width + off := by
    rw [Layout.slotStart]
    omega
  rw [h.encode_eq, List.getElem?_append_right (by rw [hheader, Layout.slotStart]; omega), hheader,
    hpos, List.getElem?_append_left (by omega)]
  refine getElem?_encodeSlots h.width_of_mem hoff ?_
  rw [Array.getElem?_toList, h.getElem?_slots hslot]

theorem getElem?_encode_rest (h : page.Valid) {pos : Nat}
    (hpos : page.layout.headerSize + page.layout.slots * page.layout.width ≤ pos)
    (hlt : pos < page.layout.pageSize) : page.encode[pos]? = some 0 := by
  have hbody := h.length_body
  rw [encode, List.getElem?_append_right (by omega), hbody,
    List.getElem?_replicate_of_lt (by omega)]

end Valid

/-- A byte that means something in a slot in use is inside the slot. -/
theorem ReadFrom.kept_lt {page : Page} (h : ReadFrom layout image page) {slot off : Nat}
    (hslot : slot < layout.slots) (hbit : marked image slot)
    (hkept : Row.Kept layout.schema.columns (layout.slotBytes image slot) off) :
    off < layout.width :=
  Row.kept_lt (h.legible slot hslot hbit) hkept

/-- The bytes of a slot that mean something: some only if the slot is in use. -/
theorem ReadFrom.kept_slot_iff {page : Page} (h : ReadFrom layout image page) {slot off : Nat}
    (hslot : slot < layout.slots) (hoff : off < layout.width) :
    layout.Kept image (layout.slotStart slot + off) ↔ marked image slot ∧
      Row.Kept layout.schema.columns (layout.slotBytes image slot) off := by
  constructor
  · rintro (hheader | ⟨slot', hslot', hbit, hstart, hkept⟩)
    · rw [Layout.slotStart] at hheader
      omega
    · have hoff' := h.kept_lt hslot' hbit hkept
      obtain ⟨rfl, heq⟩ := Layout.eq_of_slotStart hoff hoff'
        (show layout.slotStart slot + off = layout.slotStart slot' +
          (layout.slotStart slot + off - layout.slotStart slot') by omega)
      rw [← heq] at hkept
      exact ⟨hbit, hkept⟩
  · rintro ⟨hbit, hkept⟩
    right
    refine ⟨slot, hslot, hbit, Nat.le_add_right _ _, ?_⟩
    rwa [Nat.add_sub_cancel_left]

/-- Behind the slots nothing means anything. -/
theorem ReadFrom.not_kept_rest {page : Page} (h : ReadFrom layout image page) {pos : Nat}
    (hpos : layout.headerSize + layout.slots * layout.width ≤ pos) : ¬ layout.Kept image pos := by
  rintro (hheader | ⟨slot, hslot, hbit, hstart, hkept⟩)
  · omega
  · have hoff := h.kept_lt hslot hbit hkept
    have hmul : (slot + 1) * layout.width ≤ layout.slots * layout.width :=
      Nat.mul_le_mul_right _ hslot
    rw [Nat.succ_mul] at hmul
    rw [Layout.slotStart] at hstart hoff
    omega

/-- **A page is written as the normal form of the image it was read from.**  A position is in the
bitmap, in a slot or behind the slots. -/
theorem Valid.normal_encode {page : Page} (hv : page.Valid)
    (h : ReadFrom page.layout image page) : page.layout.Normal image page.encode := by
  refine ⟨hv.length_encode, ?_⟩
  intro pos hpos
  by_cases hheader : pos < page.layout.headerSize
  · have hbyte : page.encode[pos]? = image[pos]? := by
      rw [hv.getElem?_encode_header hheader, h.bitmap, List.getElem?_take_of_lt hheader]
    exact ⟨fun _ => hbyte, fun hnot => absurd (Or.inl hheader) hnot⟩
  · by_cases hrest : page.layout.headerSize + page.layout.slots * page.layout.width ≤ pos
    · have hbyte := hv.getElem?_encode_rest hrest hpos
      exact ⟨fun hkept => absurd hkept (h.not_kept_rest hrest), fun _ => hbyte⟩
    · have hwidth : 0 < page.layout.width := page.layout.width_pos
      obtain ⟨slot, off, hslot, hoff, rfl⟩ : ∃ slot off, slot < page.layout.slots ∧
          off < page.layout.width ∧ pos = page.layout.slotStart slot + off := by
        refine ⟨(pos - page.layout.headerSize) / page.layout.width,
          (pos - page.layout.headerSize) % page.layout.width, ?_, Nat.mod_lt _ hwidth, ?_⟩
        · rw [Nat.div_lt_iff_lt_mul hwidth]
          omega
        · have hdiv := Nat.div_add_mod' (pos - page.layout.headerSize) page.layout.width
          rw [Layout.slotStart]
          omega
      rw [h.kept_slot_iff hslot hoff, hv.getElem?_encode_slot hslot hoff]
      cases hrow : page.row? slot with
      | none =>
        have hclear := h.free slot hslot hrow
        refine ⟨fun hkept => absurd hkept.1 hclear, fun _ => ?_⟩
        rw [encodeSlot, List.getElem?_replicate_of_lt hoff]
      | some row =>
        obtain ⟨hbit, hnormal⟩ := h.used slot hslot row hrow
        obtain ⟨hkept, hzero⟩ := hnormal off hoff
        rw [Layout.getElem?_slotBytes image slot hoff] at hkept
        exact ⟨fun hk => hkept hk.2, fun hk => hzero fun hkept' => hk ⟨hbit, hkept'⟩⟩

/-- A page has the same content as itself, whatever its marks. -/
theorem sameContent_withMarks (page : Page) (dirty : Bool) (before : Bytes) :
    Page.sameContent { page with dirty, before } page := by
  have hslots : page.slots.isEqv page.slots Page.sameContent.sameSlot := by
    rw [Array.isEqv_iff_rel]
    refine ⟨rfl, ?_⟩
    intro slot hslot
    cases page.slots[slot] with
    | none => rfl
    | some row =>
      rw [Page.sameContent.sameSlot, Row.sameContent, beq_self_eq_true, beq_self_eq_true]
      rfl
  rw [Page.sameContent, beq_self_eq_true, beq_self_eq_true, hslots]
  rfl

/-! ## 5. All images -/

/-- **Which images are pages, and what becomes of the others' bytes.**  An image is read just if it
is legible, and is corrupt if not.  The page is written as the normal form of the image, and the
normal form is read as an equal page that is written in the same way. -/
theorem decode_normal_form (id : PageId) (layout : Layout) (image : Bytes) :
    ((∃ page, decode id layout image = .ok page) ↔ layout.Legible image) ∧
    (¬ layout.Legible image → ∃ fault, decode id layout image = .error (.corrupt id fault)) ∧
    ∀ page, decode id layout image = .ok page →
      layout.Normal image page.encode ∧
      ∃ again, decode id layout page.encode = .ok again ∧ again.sameContent page ∧
        again.encode = page.encode := by
  have hlegible : ∀ page, decode id layout image = .ok page → layout.Legible image := by
    intro page hpage
    have hread := readFrom_of_decode hpage
    exact ⟨hread.length, hread.legible⟩
  have hrefused : ∀ e, decode id layout image = .error e →
      ¬ layout.Legible image ∧ ∃ fault, e = .corrupt id fault := by
    intro e he
    rcases decode_cases_of_error he with ⟨hlen, rfl⟩ | ⟨-, slot, hslot, hbit, hnot, -, rfl⟩
    · exact ⟨fun h => hlen h.1, _, rfl⟩
    · exact ⟨fun h => hnot (h.2 slot hslot hbit), _, rfl⟩
  refine ⟨⟨fun ⟨page, hpage⟩ => hlegible page hpage, ?_⟩, ?_, ?_⟩
  · intro h
    cases hd : decode id layout image with
    | error e => exact absurd h (hrefused e hd).1
    | ok page => exact ⟨page, rfl⟩
  · intro h
    cases hd : decode id layout image with
    | ok page => exact absurd (hlegible page hd) h
    | error e =>
      obtain ⟨-, fault, rfl⟩ := hrefused e hd
      exact ⟨fault, rfl⟩
  · intro page hpage
    have hread := readFrom_of_decode hpage
    obtain ⟨hv, rfl, rfl⟩ := (Reachable.decode hpage).valid
    exact ⟨hv.normal_encode hread, _, hv.decode_encode, sameContent_withMarks page _ _, rfl⟩

/-- A page of two slots, the first one in use: the six bits behind them are set, and there is junk
behind the short text, in the free slot and behind the slots. -/
theorem decode_normal_form_junk :
    ∃ (layout : Layout) (image : Bytes) (page : Page),
      image = [253, 7, 0, 0, 0, 1, 0, 0, 0, 65, 9, 9, 9] ++ List.replicate 14 9 ∧
      decode ⟨0, 3⟩ layout image = .ok page ∧
      page.encode = [253, 7, 0, 0, 0, 1, 0, 0, 0, 65, 0, 0, 0] ++ List.replicate 14 0 ∧
      layout.Legible image ∧ layout.Normal image page.encode ∧
      ∃ again, decode ⟨0, 3⟩ layout page.encode = .ok again ∧ again.sameContent page ∧
        again.encode = page.encode :=
  let schema : Schema := ⟨[⟨"n", .int⟩, ⟨"s", .text 4⟩]⟩
  let layout : Layout := ⟨schema, 27, 2, by decide, by decide, by decide, by decide⟩
  let image : Bytes := [253, 7, 0, 0, 0, 1, 0, 0, 0, 65, 9, 9, 9] ++ List.replicate 14 9
  let row : Row := ⟨schema, [.int 7, .text "A"], some ⟨⟨0, 3⟩, 0⟩, by decide +kernel⟩
  let page : Page := ⟨⟨0, 3⟩, layout, ⟨#[253]⟩, #[some row, none], false, image⟩
  have hread : decode ⟨0, 3⟩ layout image = .ok page := by cbv
  have hform := decode_normal_form ⟨0, 3⟩ layout image
  ⟨layout, image, page, rfl, hread, by decide +kernel, hform.1.mp ⟨page, hread⟩,
    hform.2.2 page hread⟩

end Page
end RowStore
