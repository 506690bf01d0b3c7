/-
# Rows in tables

Inserting walks through the pages of the table, through the pool, and every step of the walk may
evict another page of the same table.  None of that shows: the walk stops at the first page whose
sheet has a free slot (`Mirrors.placeOnFirst`), and if there is none, at the page that it appends
(`Mirrors.placeOnNew`).  So a row goes where the reference puts it (`Mirrors.insertInFile`), and
deleting clears the slot that the reference clears (`Mirrors.deleteInFile`).
-/
import RowStore.Proofs.Database.Pool

namespace RowStore

/-! ## 1. Free places -/

namespace Reference.Table

/-- The first slot of a page without a row. -/
def freeOn? (t : Table) (page : Nat) : Option Nat :=
  (List.range t.slots).find? fun slot => (t.row? page slot).isNone

/-- The first free place is on the first page that has one. -/
theorem firstFree?_eq (t : Table) :
    t.firstFree? = (List.range t.pages.length).findSome? fun page =>
      (t.freeOn? page).map fun slot => (page, slot) := by
  rw [firstFree?, places, List.find?_flatMap]
  refine congrArg (List.findSome? · _) (funext fun page => ?_)
  rw [List.find?_map]
  rfl

theorem freeOn?_eq {t : Table} {page : Nat} {sheet : Sheet} (h : t.pages[page]? = some sheet) :
    t.freeOn? page = Page.firstBlank? t.slots sheet := by
  simp only [freeOn?, Page.firstBlank?, row?, h, Option.bind_some]

theorem pages_put {t : Table} {page : Nat} {sheet : Sheet} (h : t.pages[page]? = some sheet)
    (slot : Nat) (content : Option Row) :
    (t.put page slot content).pages = t.pages.set page (sheet.set slot content) := by
  obtain ⟨hlt, hget⟩ := List.getElem?_eq_some_iff.mp h
  refine List.ext_getElem? fun i => ?_
  rw [put, List.getElem?_modify, List.getElem?_set]
  split
  · rename_i hi
    subst hi
    simp [hlt, hget]
  · simp

/-- Inserting changes nothing of a table but its pages. -/
theorem withPages_insert (t : Table) (row : Row) :
    { t with pages := (t.insert row).2.pages } = (t.insert row).2 := by
  unfold insert
  split <;> rfl

end Reference.Table

theorem Page.firstBlank?_replicate {slots : Nat} (h : 0 < slots) :
    Page.firstBlank? slots (List.replicate slots none) = some 0 := by
  rw [Page.firstBlank?, List.find?_range_eq_some]
  refine ⟨?_, List.mem_range.mpr h, fun j hj => absurd hj (Nat.not_lt_zero j)⟩
  rw [List.getElem?_replicate, if_pos h]
  rfl

/-- A row of the page's schema goes to the first free slot. -/
theorem Page.insert_eq {page : Page} {row : Row} (hrow : row.schema = page.layout.schema)
    {slot : Nat} (hslot : page.firstFree? = some slot) :
    page.insert row = .ok (page.putSlot slot (some (row.movedTo (some ⟨page.id, slot⟩))),
      row.movedTo (some ⟨page.id, slot⟩)) := by
  have hschema : ¬ row.schema ≠ page.layout.schema := not_not.mpr hrow
  simp only [Page.insert, if_neg hschema, hslot]

/-! ## 2. Inserting -/

/-- Nothing is caught where nothing fails. -/
theorem run_tryCatch_ok {ε σ α : Type} {x : EStateM ε σ α} {handle : ε → EStateM ε σ α} {s s' : σ}
    {a : α} (h : x.run s = .ok a s') : (tryCatch x handle).run s = .ok a s' := by
  have hx : x s = .ok a s' := h
  change EStateM.tryCatch x handle s = .ok a s'
  unfold EStateM.tryCatch
  simp only [hx]

namespace Mirrors

variable {db : Database} {shelves : Shelves} {s : Shelf}

/-- A row is stored on a cached page that has a free slot. -/
theorem placeOn {id : PageId} (h : Mirrors db shelves) (hidle : Idle db)
    (hs : shelves id.table = some s) {frame : Frame}
    (hframe : db.pool.cache.peek? id = some frame) {row : Row}
    (hrow : row.schema = s.layout.schema) {slot : Nat}
    (hslot : s.table.freeOn? id.number = some slot) :
    ∃ db', (Database.placeOn id frame.page row).run db = .ok (row.movedTo (some ⟨id, slot⟩)) db' ∧
      Mirrors db' (shelves.update id.table s
        (s.table.put id.number slot (some (row.movedTo none))).pages) ∧ Idle db' := by
  obtain ⟨s', sheet, hs', hsheet⟩ := h.exists_sheet hframe
  obtain rfl : s = s' := Option.some.inj (hs.symm.trans hs')
  obtain ⟨hv, hid, hlayout, hpage⟩ := (h.pages hs hsheet).cached frame hframe
  have hfree : frame.page.firstFree? = some slot := by
    rw [hv.firstFree?_eq, hlayout, hpage, ← hslot, Reference.Table.freeOn?_eq (t := s.table) hsheet]
    rfl
  have hinsert := @Page.insert_eq frame.page row (by rw [hlayout, hrow]) slot hfree
  have hv' := (hv.insert hinsert).mark true
  have hput : ((frame.page.putSlot slot (some (row.movedTo (some ⟨frame.page.id, slot⟩)))).mark
      true).sheet = sheet.set slot (some (row.movedTo none)) := by
    rw [Page.sheet_mark, Page.sheet_putSlot, hpage]
    rfl
  obtain ⟨db', hrun, hm, hidle'⟩ := h.modifyPage hidle hs hsheet hframe hv' hid hlayout rfl
  rw [hput] at hm
  rw [Reference.Table.pages_put (t := s.table) hsheet]
  refine ⟨db', ?_, hm, hidle'⟩
  rw [hid] at hinsert hrun
  simp only [Database.placeOn, EStateM.run_bind, hinsert, Database.attempt, EStateM.run_pure, hrun]

/-- **The walk through the pages.**  The row is stored on the first of them that has a free slot;
if none has, then nothing is stored.  By induction on the pages that are left to look at. -/
theorem placeOnFirst {id : TableId} (h : Mirrors db shelves) (hidle : Idle db)
    (hs : shelves id = some s) {row : Row} (hrow : row.schema = s.layout.schema)
    {numbers : List Nat} (hnumbers : ∀ number ∈ numbers, number < s.sheets.length) :
    ∃ db', (Database.placeOnFirst id row numbers).run db =
        .ok ((numbers.findSome? fun page => (s.table.freeOn? page).map fun slot => (page, slot)).map
          fun (page, slot) => (⟨id, page⟩, row.movedTo (some ⟨⟨id, page⟩, slot⟩))) db' ∧
      Mirrors db' ((numbers.findSome? fun page =>
          (s.table.freeOn? page).map fun slot => (page, slot)).elim shelves fun (page, slot) =>
        shelves.update id s (s.table.put page slot (some (row.movedTo none))).pages) ∧
      Idle db' := by
  induction numbers generalizing db with
  | nil => exact ⟨db, rfl, h, hidle⟩
  | cons number numbers ih =>
    have hlt : number < s.sheets.length := hnumbers number List.mem_cons_self
    have hsheet : s.sheets[number]? = some s.sheets[number] := List.getElem?_eq_getElem hlt
    obtain ⟨frame, db₁, hfetch, h₁, hidle₁, hframe⟩ :=
      @Mirrors.fetch db shelves ⟨id, number⟩ s _ h hidle hs hsheet
    obtain ⟨hv, -, hlayout, hpage⟩ := (@h₁.pages ⟨id, number⟩ s _ hs hsheet).cached frame hframe
    have hfree : frame.page.firstFree? = s.table.freeOn? number := by
      rw [hv.firstFree?_eq, hlayout, hpage, Reference.Table.freeOn?_eq (t := s.table) hsheet]
      rfl
    have hroom := Page.freeCount_pos_iff frame.page
    rw [hfree] at hroom
    cases hslot : s.table.freeOn? number with
    | some slot =>
      obtain ⟨db₂, hplace, h₂, hidle₂⟩ := h₁.placeOn hidle₁ hs hframe hrow hslot
      rw [hslot] at hroom
      have hpos : 0 < frame.page.freeCount := hroom.mpr rfl
      refine ⟨db₂, ?_, by simpa [hslot] using h₂, hidle₂⟩
      simp only [Database.placeOnFirst, EStateM.run_bind, hfetch, hpos, if_true, hplace,
        EStateM.run_pure, List.findSome?_cons, hslot, Option.map_some]
    | none =>
      obtain ⟨db₂, hrest, h₂, hidle₂⟩ :=
        ih h₁ hidle₁ fun n hn => hnumbers n (List.mem_cons_of_mem _ hn)
      rw [hslot] at hroom
      have hfull : ¬ 0 < frame.page.freeCount := fun hpos => Bool.false_ne_true (hroom.mp hpos)
      refine ⟨db₂, ?_, by simpa [hslot] using h₂, hidle₂⟩
      simp only [Database.placeOnFirst, EStateM.run_bind, hfetch, hfull, if_false, hrest,
        List.findSome?_cons, hslot, Option.map_none]

/-- **A row is stored on a page that is appended for it.** -/
theorem placeOnNew {id : TableId} (h : Mirrors db shelves) (hidle : Idle db)
    (hs : shelves id = some s) {row : Row} (hrow : row.schema = s.layout.schema) :
    ∃ db', (Database.placeOnNew s.ref row).run db = .ok (⟨id, s.sheets.length⟩,
        row.movedTo (some ⟨⟨id, s.sheets.length⟩, 0⟩)) db' ∧
      Mirrors db' (shelves.update id s
        (s.table.grown.put s.sheets.length 0 (some (row.movedTo none))).pages) ∧ Idle db' := by
  obtain ⟨db₁, happend, hpool, h₁⟩ := h.appendPage hs
  have hidle₁ : Idle db₁ := hidle.kept (Kept.of_pool hpool)
  obtain ⟨t, ht⟩ : ∃ t : Shelf, t = { s with sheets := s.table.grown.pages } := ⟨_, rfl⟩
  have htable : t.table = s.table.grown := by rw [ht]; rfl
  have hs₁ : shelves.update id s s.table.grown.pages id = some t := by
    rw [ht, Shelves.update_self]
  have hsheet : t.sheets[s.sheets.length]? = some (List.replicate s.layout.slots none) := by
    rw [ht]
    exact List.getElem?_concat_length
  obtain ⟨frame, db₂, hfetch, h₂, hidle₂, hframe⟩ :=
    @Mirrors.fetch db₁ _ ⟨id, s.sheets.length⟩ _ _ h₁ hidle₁ hs₁ hsheet
  have hslot : t.table.freeOn? s.sheets.length = some 0 := by
    rw [Reference.Table.freeOn?_eq (t := t.table) hsheet, htable]
    exact Page.firstBlank?_replicate s.layout.slots_pos
  obtain ⟨db₃, hplace, h₃, hidle₃⟩ :=
    @Mirrors.placeOn db₂ _ t ⟨id, s.sheets.length⟩ h₂ hidle₂ hs₁ frame hframe row
      (by rw [ht]; exact hrow) 0 hslot
  rw [htable, ht, Shelves.update_update] at h₃
  refine ⟨db₃, ?_, h₃, hidle₃⟩
  rw [Database.placeOnNew]
  simp only [EStateM.run_bind, happend]
  rw [run_tryCatch_ok (by simp only [EStateM.run_bind, hfetch, hplace]; rfl)]
  rfl

/-- **A row is stored in a table** where the reference stores it. -/
theorem insertInFile {id : TableId} (h : Mirrors db shelves) (hidle : Idle db)
    (hs : shelves id = some s) {row : Row} (hrow : row.schema = s.layout.schema) :
    ∃ db', (Database.insertInFile s.ref row).run db =
        .ok (⟨id, (s.table.insert row).1.1⟩, row.movedTo (some
          ⟨⟨id, (s.table.insert row).1.1⟩, (s.table.insert row).1.2⟩)) db' ∧
      Mirrors db' (shelves.update id s (s.table.insert row).2.pages) ∧ Idle db' := by
  obtain ⟨f, hfile, -, hd⟩ := h.file hs
  have hnumbers : ∀ number ∈ List.range s.sheets.length, number < s.sheets.length :=
    fun _ => List.mem_range.mp
  obtain ⟨db₁, hwalk, h₁, hidle₁⟩ := h.placeOnFirst hidle hs hrow hnumbers
  have hfirst := s.table.firstFree?_eq
  have hlength : s.table.pages.length = s.sheets.length := rfl
  rw [hlength] at hfirst
  rw [← hfirst] at hwalk h₁
  have hschema : ¬ row.schema ≠ f.layout.schema := not_not.mpr (hrow.trans (by rw [hd.layout]))
  cases hfree : s.table.firstFree? with
  | some place =>
    obtain ⟨page, slot⟩ := place
    rw [hfree] at hwalk h₁
    simp only [Reference.Table.insert, hfree]
    refine ⟨db₁, ?_, h₁, hidle₁⟩
    simp only [Database.insertInFile, EStateM.run_bind, hfile, hschema, if_false, hd.id, hd.count,
      hwalk, Option.map_some, EStateM.run_pure]
  | none =>
    rw [hfree] at hwalk h₁
    obtain ⟨db₂, hnew, h₂, hidle₂⟩ := h₁.placeOnNew hidle₁ hs hrow
    simp only [Reference.Table.insert, hfree]
    refine ⟨db₂, ?_, h₂, hidle₂⟩
    simp only [Database.insertInFile, EStateM.run_bind, hfile, hschema, if_false, hd.id, hd.count,
      hwalk, Option.map_none, hnew]
    rfl

/-! ## 3. Deleting -/

/-- Deleting first fetches the page that the row names, and goes on with its slot. -/
theorem fetch_delete {page : PageId} (h : Mirrors db shelves) (hidle : Idle db)
    (hs : shelves page.table = some s) (hlt : page.number < s.sheets.length) {row : Row}
    {slot : Nat} (hplace : row.place = some ⟨page, slot⟩) :
    ∃ frame db₁, (Database.fetch page).run db = .ok frame db₁ ∧ Mirrors db₁ shelves ∧ Idle db₁ ∧
      db₁.pool.cache.peek? page = some frame ∧
      frame.page.delete row =
        if (s.table.row? page.number slot).isNone then .error (.emptySlot page slot)
        else .ok (frame.page.putSlot slot none, row.movedTo none) := by
  have hsheet := List.getElem?_eq_getElem hlt
  obtain ⟨frame, db₁, hfetch, h₁, hidle₁, hframe⟩ := h.fetch hidle hs hsheet
  obtain ⟨hv, hid, -, hpage⟩ := (h₁.pages hs hsheet).cached frame hframe
  have hrow : (s.table.row? page.number slot).isNone = !frame.page.isUsed slot := by
    rw [hv.isUsed_eq, ← Page.isNone_join_getElem?_sheet, hpage]
    simp only [Reference.Table.row?, Shelf.table, hsheet, Option.bind_some]
  refine ⟨frame, db₁, hfetch, h₁, hidle₁, hframe, ?_⟩
  rw [hrow]
  simp only [Page.delete, hplace, hid, ne_eq, not_true, if_false]
  cases frame.page.isUsed slot <;> rfl

/-- **A stored row is deleted** where the reference deletes it. -/
theorem deleteInFile {page : PageId} (h : Mirrors db shelves) (hidle : Idle db)
    (hs : shelves page.table = some s) (hlt : page.number < s.sheets.length) {row : Row}
    {slot : Nat} (hplace : row.place = some ⟨page, slot⟩)
    (hused : (s.table.row? page.number slot).isNone = false) :
    ∃ db', (Database.deleteInFile s.ref row).run db = .ok (page, row.movedTo none) db' ∧
      Mirrors db' (shelves.update page.table s (s.table.put page.number slot none).pages) ∧
      Idle db' := by
  have hsheet : s.sheets[page.number]? = some s.sheets[page.number] := List.getElem?_eq_getElem hlt
  obtain ⟨f, hfile, -, hd⟩ := h.file hs
  obtain ⟨frame, db₁, hfetch, h₁, hidle₁, hframe, hdelete⟩ := h.fetch_delete hidle hs hlt hplace
  rw [hused, if_neg Bool.false_ne_true] at hdelete
  obtain ⟨hv, hid, hlayout, hpage⟩ := (h₁.pages hs hsheet).cached frame hframe
  obtain ⟨db₂, hrun, h₂, hidle₂⟩ :=
    h₁.modifyPage hidle₁ hs hsheet hframe ((hv.delete hdelete).mark true) hid hlayout rfl
  rw [Page.sheet_mark, Page.sheet_putSlot, hpage, Option.map_none] at h₂
  rw [Reference.Table.pages_put (t := s.table) hsheet]
  refine ⟨db₂, ?_, h₂, hidle₂⟩
  have htable : ¬ page.table ≠ f.id := not_not.mpr hd.id.symm
  have hcount : ¬ f.pageCount ≤ page.number := by rw [hd.count]; omega
  simp only [Database.deleteInFile, hplace, EStateM.run_bind, hfile, htable, if_false, hcount,
    hfetch, hdelete, Database.attempt, EStateM.run_pure, hrun]

/-- A slot without a row has nothing to delete. -/
theorem deleteInFile_empty {page : PageId} (h : Mirrors db shelves) (hidle : Idle db)
    (hs : shelves page.table = some s) (hlt : page.number < s.sheets.length) {row : Row}
    {slot : Nat} (hplace : row.place = some ⟨page, slot⟩)
    (hfree : (s.table.row? page.number slot).isNone = true) :
    ∃ db', (Database.deleteInFile s.ref row).run db = .error (.emptySlot page slot) db' ∧
      Mirrors db' shelves ∧ Idle db' := by
  obtain ⟨f, hfile, -, hd⟩ := h.file hs
  obtain ⟨frame, db₁, hfetch, h₁, hidle₁, -, hdelete⟩ := h.fetch_delete hidle hs hlt hplace
  rw [hfree, if_pos rfl] at hdelete
  refine ⟨db₁, ?_, h₁, hidle₁⟩
  have htable : ¬ page.table ≠ f.id := not_not.mpr hd.id.symm
  have hcount : ¬ f.pageCount ≤ page.number := by rw [hd.count]; omega
  simp only [Database.deleteInFile, hplace, EStateM.run_bind, hfile, htable, if_false, hcount,
    hfetch, hdelete, Database.attempt]
  rfl

end Mirrors
end RowStore
