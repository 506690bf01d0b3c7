/-
# A page is a map from slots to rows

`Page.row?` is the map: what a slot holds, if anything.  Bitmap and slots are two ways of keeping
it, and this module says what a page does in terms of the map alone.

* `Keeps`: the bits are the map, the stored rows belong to the page and know their slots, the page
  lists them by ascending slot, and every slot is counted as one with a row or as a free one;
* `Stores`, `Frees`: an insertion writes the lowest free slot and a deletion the one that the row
  names.  When each of them fails is a matter of the map, and one that fails changes nothing;
* `Reachable.slot_map` has all of this for every page that there can be: new pages and pages read
  from any image, whatever was done with them since.

A write shows in the map at one place (`WrittenAt`), although it shares a byte of the bitmap with
seven other slots, and the bits behind the last slot stay what the image had there.
-/
import RowStore.Proofs.Page.Valid
import Mathlib.Data.List.Count

namespace RowStore
namespace Page

/-! ## 1. The map -/

/-- What a page keeps: a map from the slots of the layout to rows. -/
structure Keeps (id : PageId) (layout : Layout) (page : Page) : Prop where
  id_eq : page.id = id
  layout_eq : page.layout = layout
  /-- A slot holds a row just if its bit is set. -/
  bit : ∀ slot < layout.slots, page.bitmap.test slot = (page.row? slot).isSome
  /-- There is nothing behind the last slot. -/
  inside : ∀ slot row, page.row? slot = some row → slot < layout.slots
  schema : ∀ slot row, page.row? slot = some row → row.schema = layout.schema
  place : ∀ slot row, page.row? slot = some row → row.place = some ⟨id, slot⟩
  /-- The rows are listed by ascending slot. -/
  listed : page.rows = (List.range layout.slots).filterMap page.row?
  /-- A slot holds a row or is free. -/
  counted : page.rows.length + page.freeCount = layout.slots

/-- The slots with a row and those without are all the slots. -/
theorem Valid.length_rows_add_freeCount {page : Page} (h : page.Valid) :
    page.rows.length + page.freeCount = page.layout.slots := by
  have hrows : page.rows.length =
      (List.range page.layout.slots).countP fun slot => (page.row? slot).isSome := by
    rw [h.rows_eq_filterMap, List.length_filterMap_eq_countP]
  have hfree : page.freeCount =
      (List.range page.layout.slots).countP fun slot => !(page.row? slot).isSome := by
    rw [freeCount]
    simp only [h.isUsed_eq]
  have hsplit := List.length_eq_countP_add_countP (fun slot => (page.row? slot).isSome)
    (l := List.range page.layout.slots)
  simp only [Bool.not_eq_true, Bool.decide_eq_false, List.length_range] at hsplit
  rw [hrows, hfree, ← hsplit]

theorem Valid.keeps {page : Page} (h : page.Valid) : page.Keeps page.id page.layout where
  id_eq := rfl
  layout_eq := rfl
  bit := fun _ hslot => (h.fits_row? hslot).used
  inside := fun _ _ hr => h.row?_lt hr
  schema := fun _ _ hr => h.schema_eq hr
  place := fun _ _ hr => h.place_eq hr
  listed := h.rows_eq_filterMap
  counted := h.length_rows_add_freeCount

/-! ## 2. One slot is written -/

/-- The second page is the first one with another content in one slot. -/
structure WrittenAt (slot : Nat) (content : Option Row) (page page' : Page) : Prop where
  row? : ∀ i, page'.row? i = if i = slot then content else page.row? i
  bit : ∀ i, page'.bitmap.test i = if i = slot then content.isSome else page.bitmap.test i
  id_eq : page'.id = page.id
  layout_eq : page'.layout = page.layout
  dirty_eq : page'.dirty = page.dirty
  before_eq : page'.before = page.before

theorem Valid.writtenAt_putSlot {page : Page} (h : page.Valid) {slot : Nat}
    (hslot : slot < page.layout.slots) (content : Option Row) :
    WrittenAt slot content page (page.putSlot slot content) where
  row? := row?_putSlot page slot content (h.size ▸ hslot)
  bit := Bitmap.test_put page.bitmap (h.bit_lt hslot) content.isSome
  id_eq := rfl
  layout_eq := rfl
  dirty_eq := rfl
  before_eq := rfl

/-- The page and the row in the caller's hands behind an operation on both: those of the answer if
there is one, and both as they were if not. -/
def behind (page : Page) (row : Row) (result : Except Error (Page × Row)) : Page × Row :=
  result.toOption.getD (page, row)

theorem behind_insert (page : Page) (row : Row) :
    (behind page row (page.insert row)).1 = page.perform (.insert row) := by
  rw [behind, perform]
  cases page.insert row <;> rfl

theorem behind_delete (page : Page) (row : Row) :
    (behind page row (page.delete row)).1 = page.perform (.delete row) := by
  rw [behind, perform]
  cases page.delete row <;> rfl

/-! ## 3. Storing a row -/

/-- All that storing the row can do to the page. -/
structure Stores (id : PageId) (layout : Layout) (page : Page) (row : Row) : Prop where
  /-- A row of another schema is refused. -/
  foreign : row.schema ≠ layout.schema →
    page.insert row = .error (.schema (.notOfPage row.values id))
  /-- A row of the schema is refused just if every slot holds a row. -/
  full_iff : row.schema = layout.schema →
    (page.insert row = .error (.pageFull id) ↔ ∀ slot < layout.slots, (page.row? slot).isSome)
  /-- If not, it goes into the lowest free slot and knows that slot. -/
  stored : row.schema = layout.schema → (∃ slot < layout.slots, page.row? slot = none) →
    ∃ slot < layout.slots, page.row? slot = none ∧
      (∀ lower < slot, (page.row? lower).isSome) ∧
      ∃ page', page.insert row = .ok (page', row.movedTo (some ⟨id, slot⟩)) ∧
        WrittenAt slot (some (row.movedTo (some ⟨id, slot⟩))) page page'
  failed : ∀ e, page.insert row = .error e →
    behind page row (page.insert row) = (page, row) ∧ page.perform (.insert row) = page

theorem Valid.stores {page : Page} (h : page.Valid) (row : Row) :
    page.Stores page.id page.layout row where
  foreign := by
    intro hs
    rw [Page.insert, if_pos hs]
  full_iff := by
    intro hs
    rw [Page.insert, if_neg (not_not.mpr hs)]
    constructor
    · intro hfull
      cases hf : page.firstFree? with
      | none => exact h.firstFree?_eq_none hf
      | some slot =>
        rw [hf] at hfull
        cases hfull
    · intro hall
      cases hf : page.firstFree? with
      | none => rfl
      | some slot =>
        obtain ⟨hslot, hfree, -⟩ := h.firstFree?_eq_some hf
        have hused := hall slot hslot
        rw [hfree] at hused
        cases hused
  stored := by
    rintro hs ⟨free, hlt, hfree⟩
    cases hf : page.firstFree? with
    | none =>
      have hused := h.firstFree?_eq_none hf free hlt
      rw [hfree] at hused
      cases hused
    | some slot =>
      obtain ⟨hslot, hnone, hlower⟩ := h.firstFree?_eq_some hf
      refine ⟨slot, hslot, hnone, hlower, _, ?_, h.writtenAt_putSlot hslot _⟩
      rw [Page.insert, if_neg (not_not.mpr hs), hf]
  failed := by
    intro e he
    rw [← behind_insert, he]
    exact ⟨rfl, rfl⟩

/-! ## 4. Freeing a slot -/

/-- All that removing the row can do to the page. -/
structure Frees (id : PageId) (layout : Layout) (page : Page) (row : Row) : Prop where
  /-- A row without a place, or with one elsewhere, is not on the page. -/
  elsewhere : (∀ slot, row.place ≠ some ⟨id, slot⟩) → page.delete row = .error (.notOnPage id)
  /-- A slot that is free or does not exist has nothing to remove. -/
  vacant : ∀ slot, row.place = some ⟨id, slot⟩ → (layout.slots ≤ slot ∨ page.row? slot = none) →
    page.delete row = .error (.emptySlot id slot)
  /-- A slot with a row is freed, and the row at hand forgets its place. -/
  freed : ∀ slot, row.place = some ⟨id, slot⟩ → slot < layout.slots → (page.row? slot).isSome →
    ∃ page', page.delete row = .ok (page', row.movedTo none) ∧ WrittenAt slot none page page'
  failed : ∀ e, page.delete row = .error e →
    behind page row (page.delete row) = (page, row) ∧ page.perform (.delete row) = page

/-- What removing a row that names the page comes to. -/
theorem delete_of_place {page : Page} {row : Row} {slot : Nat}
    (hp : row.place = some ⟨page.id, slot⟩) :
    page.delete row = if page.isUsed slot then .ok (page.putSlot slot none, row.movedTo none)
      else .error (.emptySlot page.id slot) := by
  simp only [delete, hp, ne_eq, not_true_eq_false, if_false]

theorem Valid.frees {page : Page} (h : page.Valid) (row : Row) :
    page.Frees page.id page.layout row where
  elsewhere := by
    intro hplace
    unfold Page.delete
    split
    · rfl
    · rename_i place hp
      have hpage : place.page ≠ page.id := by
        intro heq
        exact hplace place.slot (by rw [hp, ← heq])
      rw [if_pos hpage]
  vacant := by
    intro slot hp hvacant
    have hunused : page.isUsed slot = false := by
      rcases hvacant with hbeyond | hfree
      · rw [isUsed, decide_eq_false (by omega), Bool.false_and]
      · rw [h.isUsed_eq, hfree, Option.isSome_none]
    rw [delete_of_place hp, hunused]
    rfl
  freed := by
    intro slot hp hslot hused
    refine ⟨_, ?_, h.writtenAt_putSlot hslot none⟩
    rw [delete_of_place hp, h.isUsed_eq, if_pos hused]
  failed := by
    intro e he
    rw [← behind_delete, he]
    exact ⟨rfl, rfl⟩

/-! ## 5. Every page -/

/-- **A page is a map from slots to rows**, whatever was done with it: bitmap, slots, listing and
counts say the same of it.  Storing a row of the schema changes the map at its lowest free slot,
and fails just if there is none; removing a row changes it at the slot that the row names, and
fails just if that is no slot of the page with a row in it.  What fails leaves page and row alone. -/
theorem Reachable.slot_map {id : PageId} {layout : Layout} {page : Page}
    (h : Reachable id layout page) :
    page.Keeps id layout ∧ ∀ row, page.Stores id layout row ∧ page.Frees id layout row := by
  obtain ⟨hv, rfl, rfl⟩ := h.valid
  constructor
  · exact hv.keeps
  · intro row
    exact ⟨hv.stores row, hv.frees row⟩

/-- A page of three slots whose image has a row in the second one, junk in the third and five bits
set behind it; then a row is removed and another one stored, which goes into the first slot. -/
theorem Reachable.slot_map_strayBits :
    ∃ (layout : Layout) (page : Page) (old new : Row),
      Page.decode ⟨0, 3⟩ layout [250, 0, 0, 0, 0, 7, 0, 0, 0, 9, 9, 9, 9] = .ok page ∧
      page.row? 1 = some old ∧ old.values = [.int 7] ∧ new.values = [.int 8] ∧
      ((page.perform (.delete old)).perform (.insert new)).row? 0 =
        some (new.movedTo (some ⟨⟨0, 3⟩, 0⟩)) ∧
      ((page.perform (.delete old)).perform (.insert new)).Keeps ⟨0, 3⟩ layout ∧
      ∀ row, ((page.perform (.delete old)).perform (.insert new)).Stores ⟨0, 3⟩ layout row ∧
        ((page.perform (.delete old)).perform (.insert new)).Frees ⟨0, 3⟩ layout row :=
  let schema : Schema := ⟨[⟨"n", .int⟩]⟩
  let layout : Layout := ⟨schema, 13, 3, by decide, by decide, by decide, by decide⟩
  let old : Row := ⟨schema, [.int 7], some ⟨⟨0, 3⟩, 1⟩, rfl⟩
  let new : Row := ⟨schema, [.int 8], none, rfl⟩
  let page : Page := ⟨⟨0, 3⟩, layout, ⟨#[250]⟩, #[none, some old, none], false,
    [250, 0, 0, 0, 0, 7, 0, 0, 0, 9, 9, 9, 9]⟩
  have hread : Page.decode ⟨0, 3⟩ layout [250, 0, 0, 0, 0, 7, 0, 0, 0, 9, 9, 9, 9] = .ok page := by
    cbv
  ⟨layout, page, old, new, hread, rfl, rfl, rfl, by decide +kernel,
    (((Reachable.decode hread).perform (.delete old)).perform (.insert new)).slot_map⟩

end Page
end RowStore
