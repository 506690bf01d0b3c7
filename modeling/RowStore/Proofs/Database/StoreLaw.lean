/-
# A table reads as it was last written

A file of a table is written in two ways: pages are written to their places directly (`Deed.write`),
far behind the end, too, and pages in the cache are written back whenever they have to be.  Acts
also append pages, and an insertion that fails cuts one off again.

Whatever is done, the file ends just behind the last page of the table, and the page of a number
reads as the last one that was written there.  Where nothing has been written it reads as it did at
first, and behind what there was at first it is empty (`Origin.reads_last_written`).
-/
import RowStore.Proofs.Database.PageCounts
import RowStore.Proofs.Database.Writing

namespace RowStore

namespace Origin

open Session

/-- The page that the table has under the number when the pages of the list have been written: the
last one of them that was written there, or the one that was there at first, or an empty one. -/
def pageAt (o : Origin) (log : List Page) (number : Nat) : Page :=
  match Page.lastOf? log number with
  | some page => page.named ⟨o.table, number⟩
  | none => (o.db.stored? ⟨o.table, number⟩).getD (.empty ⟨o.table, number⟩ o.extent.layout)

/-- The file of the table holds the pages of the table and nothing else, and they are those that the
list says. -/
structure Reads (o : Origin) (log : List Page) (count : Nat) (db : Database) : Prop where
  extent : db.extent? o.table = some { o.extent with count }
  size : db.disk.size o.extent.path = count * o.extent.layout.pageSize
  page : ∀ number < count, ∃ before, (Database.readPage o.ref number).run db =
    .ok { o.pageAt log number with dirty := false, before } (db.counted o.table)
  behind : ∀ number, count ≤ number →
    (Database.readPage o.ref number).run db = .error (.io .unexpectedEof) db

variable {o : Origin} {s : Session} {count : Nat} {journal : Journal}

/-! ## 1. Deeds -/

theorem shown?_withRoom (d : Disk) (path : String) (full : Bool) (p : String) :
    (d.withRoom path full).shown? p = d.shown? p := by
  rw [Disk.shown?, Disk.shown?, Disk.file?_withRoom, Option.map_map]
  refine congrArg (Option.map · _) (funext fun f => ?_)
  simp only [Function.comp]
  split <;> rfl

/-- **A deed** leaves the table with what the journal says then. -/
theorem HoldsOn.deed (h : o.HoldsOn journal s.db) {deed : Deed}
    (hdeed : ∀ page, deed = .write o.table page → page.Valid ∧ page.layout = o.extent.layout) :
    o.HoldsOn (journal ++ (Journaled.performDeed deed).journal s)
      (endState ((performDeed deed).run s)).db := by
  obtain ⟨count, h⟩ := h
  refine holds_performDeed (performDeed_leads works (fun _ _ h => h.on)
    (fun _ _ row href => placeOnNew_leads href row) (fun _ _ href => appendPage_leads href)
    (fun _ db path full h => (h.withDisk (shown?_withRoom db.disk path full _)).on) ?_) h
  rintro table ref page rfl href
  refine writePage_leads href ?_
  rintro rfl
  exact hdeed page rfl

/-- **Whatever is done**, the file holds what the journal says. -/
theorem HoldsOn.deeds (h : o.HoldsOn journal s.db) {deeds : List Deed}
    (hdeeds : ∀ page, .write o.table page ∈ deeds →
      page.Valid ∧ page.layout = o.extent.layout) :
    o.HoldsOn (journal ++ s.journal deeds) (s.afterDeeds deeds).db := by
  refine afterDeeds_induction (P := fun journal s => o.HoldsOn journal s.db) ?_ h
  intro journal s deed hmem h
  refine h.deed ?_
  rintro page rfl
  exact hdeeds page hmem

/-- The bytes of a page decode to the page that the table has there. -/
theorem Holds.decode (h : o.Holds count count journal s.db)
    (hdecodes : ∀ number < o.extent.count, ∃ page, o.db.stored? ⟨o.table, number⟩ = some page)
    (number : Nat) : ∃ before, Page.decode ⟨o.table, number⟩ o.extent.layout
      (o.imageAt (journal.pagesOf o.table) number) =
        .ok { o.pageAt (journal.pagesOf o.table) number with dirty := false, before } := by
  rw [imageAt, pageAt]
  cases hlast : Page.lastOf? (journal.pagesOf o.table) number with
  | some page =>
    obtain ⟨hvalid, hlayout, -⟩ := h.logged page (Page.mem_of_lastOf? hlast).1
    have hread := hvalid.decode_encode_named ⟨o.table, number⟩
    rw [hlayout] at hread
    exact ⟨_, hread⟩
  | none =>
    rcases Nat.lt_or_ge number o.extent.count with hlt | hge
    · obtain ⟨page, hpage⟩ := hdecodes number hlt
      obtain ⟨x, image, hx, hread, hdecode⟩ := Database.exists_of_stored? hpage
      obtain rfl : o.extent = x := Option.some.inj (o.extent_eq.symm.trans hx)
      have hfirst : o.firstImage number = image := by
        rw [firstImage, hread]
        rfl
      have hclean : page.dirty = false := by
        obtain ⟨-, slots, -, rfl⟩ := Page.decode_cases hdecode
        rfl
      refine ⟨page.before, ?_⟩
      simp only [hfirst, hdecode, hpage, Option.getD_some, ← hclean]
    · have hnone : o.db.stored? ⟨o.table, number⟩ = none := by
        rw [Database.stored?_eq o.extent_eq, Database.image?_eq o.extent_eq, o.read_behind hge]
        rfl
      simp only [o.firstImage_behind hge, hnone, Option.getD_none]
      exact ⟨_, Page.decode_zeroImage _ _⟩

/-! ## 2. The law -/

/-- **A table reads as it was last written.**  Take a table that has been opened in a file of its
own, an ordinary one that is empty or has complete pages, all of which can be read.  Whatever deeds
are done, as long as the pages that are written to the table past the cache have its layout, the
table has as many pages as the journal of the deeds says, and the file ends just behind the last
one.  A page can be read if it is one of the table, and is the last one that has been written there,
as the journal has it; if there is none, it is the one that was there at first, or an empty one.
Behind the last page there is nothing.

A page that was written is read under the name of its place, which is its own if it is a page of the
table. -/
theorem reads_last_written {disk : Disk} {pageSize capacity : Nat} {db₀ : Database}
    (h₀ : Database.onDisk disk pageSize capacity = .ok db₀) (openings : List Opening) (o : Origin)
    (ho : o.db = db₀.openAll openings)
    (hdecodes : ∀ number < o.extent.count, ∃ page, o.db.stored? ⟨o.table, number⟩ = some page)
    {deeds : List Deed} (hdeeds : ∀ page, .write o.table page ∈ deeds →
      page.Valid ∧ page.layout = o.extent.layout)
    {journal : Journal} (hjournal : journal = (start o.db).journal deeds) :
    o.Reads (journal.pagesOf o.table) (journal.countOf o.table o.extent.count)
        ((start o.db).afterDeeds deeds).db ∧
      ∀ page ∈ journal.pagesOf o.table, page.id.table = o.table →
        page.named ⟨o.table, page.id.number⟩ = page := by
  have hempty : ∀ id, o.db.pool.cache.peek? id = none := by
    rw [ho]
    exact Database.peek?_openAll h₀ openings
  have hstart : o.Holds o.extent.count o.extent.count [] (start o.db).db := .start o hempty
  obtain ⟨count, h⟩ := hstart.on.deeds hdeeds
  have hfirst : o.db.pageCount? o.table = some o.extent.count := by
    rw [Database.pageCount?_eq, o.extent_eq, Option.map_some]
  have hcount := pageCount?_afterDeeds o.typed hfirst deeds
  rw [Database.pageCount?_eq, h.extent, Option.map_some, Option.some.injEq] at hcount
  rw [List.nil_append, ← hjournal] at h
  rw [← hjournal] at hcount
  generalize (start o.db).afterDeeds deeds = s at h ⊢
  rw [← hcount]
  have hrun := h.registered.readPage_run h.ref_eq h.extent
  refine ⟨⟨h.extent, h.whole.size_eq, ?_, ?_⟩, ?_⟩
  · intro number hnumber
    obtain ⟨before, hdecode⟩ := h.decode hdecodes number
    have hread : Extent.read { o.extent with count } s.db.disk number =
        .ok (o.imageAt (journal.pagesOf o.table) number) := h.reads number hnumber
    refine ⟨before, ?_⟩
    simp only [hrun number, hread, hdecode]
  · intro number hnumber
    have hread : Extent.read { o.extent with count } s.db.disk number = .error .unexpectedEof :=
      h.whole.read_behind o.pageSize_pos hnumber
    simp only [hrun number, hread]
  · intro page hpage htable
    have hself := (h.logged page hpage).1.named_self
    rwa [← htable]

end Origin

/-! The small table.  There is no frame for the new page of a row at first, and it is cut off again;
then there is one, and the page is written back when it has to leave the cache.  At last a page is
written behind a gap. -/

namespace Sample

def origin : Origin where
  db := opened 1
  table := 0
  ref := ⟨0⟩
  extent := ⟨"t", layout, 1⟩
  typed := by
    have h₀ : Database.onDisk disk 8 1 = .ok (database 1) := rfl
    exact (Database.typed_onDisk h₀).withTable
  ref_eq := by cbv
  extent_eq := by cbv
  alone := by
    intro id y hy hpath
    have h₀ : Database.onDisk disk 8 1 = .ok (database 1) := rfl
    have hsound := (Database.sound_openAll h₀ (ordinary 1).separate).1
    rw [openAll_eq] at hsound
    have hx : (opened 1).extent? 0 = some ⟨"t", layout, 1⟩ := by cbv
    exact hsound.apart hy hx hpath
  whole := ⟨⟨[1, 7, 0, 0, 0, 0, 0, 0], false, false⟩, by cbv, rfl, rfl⟩

/-- Another row, which has no place yet. -/
def other : Row := ⟨schema, [.int 9], none, rfl⟩

/-- The page that is appended for the row, with the row on it. -/
def newPage : Page := ((Page.empty ⟨0, 1⟩ layout).perform (.insert other)).mark true

/-- A page with a row, far behind the end of the table. -/
def sparsePage : Page := (Page.empty ⟨0, 3⟩ layout).perform (.insert row)

def sparseDeeds : List Deed :=
  [.act (.get ⟨0, 0⟩), .act (.row other), .act (.insert 0 0), .act (.letGo 0), .act (.insert 0 0),
    .act (.get ⟨0, 0⟩), .write 0 sparsePage]

/-- What the deeds do to the file. -/
def sparseJournal : Journal :=
  [⟨0, .append⟩, ⟨0, .cut 1⟩, ⟨0, .append⟩, ⟨0, .write newPage⟩, ⟨0, .write sparsePage⟩]

end Sample

namespace Origin

open Session

/-- The new page is read as it was written back, the last one as it was written past the cache, and
between them there is an empty one. -/
theorem reads_last_written_sparse :
    Database.onDisk Sample.disk 8 1 = .ok (Sample.database 1) ∧
      Sample.origin.db = (Sample.database 1).openAll [Sample.opening] ∧
      (∀ number < 1, ∃ page, Sample.origin.db.stored? ⟨0, number⟩ = some page) ∧
      (∀ page, .write 0 page ∈ Sample.sparseDeeds → page.Valid ∧ page.layout = Sample.layout) ∧
      Sample.sparseJournal = (start Sample.origin.db).journal Sample.sparseDeeds ∧
      Sample.origin.Reads [Sample.newPage, Sample.sparsePage] 4
        ((start Sample.origin.db).afterDeeds Sample.sparseDeeds).db ∧
      ∀ page ∈ [Sample.newPage, Sample.sparsePage], page.id.table = 0 →
        page.named ⟨0, page.id.number⟩ = page := by
  have h₀ : Database.onDisk Sample.disk 8 1 = .ok (Sample.database 1) := rfl
  have ho : Sample.origin.db = (Sample.database 1).openAll [Sample.opening] :=
    (Sample.openAll_eq 1).symm
  have hdecodes : ∀ number < 1, ∃ page, Sample.origin.db.stored? ⟨0, number⟩ = some page := by
    intro number hnumber
    obtain rfl : number = 0 := Nat.lt_one_iff.mp hnumber
    exact ⟨_, by cbv⟩
  have hdeeds : ∀ page, .write 0 page ∈ Sample.sparseDeeds →
      page.Valid ∧ page.layout = Sample.layout := by
    intro page hpage
    obtain rfl : page = Sample.sparsePage := by simpa [Sample.sparseDeeds] using hpage
    have hpage := (Page.valid_empty ⟨0, 3⟩ Sample.layout).perform (.insert Sample.row)
    exact ⟨hpage.1, hpage.2.2⟩
  have hjournal : Sample.sparseJournal = (start Sample.origin.db).journal Sample.sparseDeeds := by
    cbv
  have hreads := reads_last_written h₀ [Sample.opening] Sample.origin ho hdecodes hdeeds hjournal
  exact ⟨h₀, ho, hdecodes, hdeeds, hjournal, hreads⟩

end Origin
end RowStore
