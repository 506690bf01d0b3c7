/-
# What disk and cache say about the tables

A table has a shelf: the file it is stored in, and the sheets of its pages.  `Mirrors` ties a
database to its shelves.  A page may be on the disk only, or in the cache and on the disk, and in
the second case the disk may be behind; `PageMirrors` says when disk and cache together mean one
sheet:

* the disk has an image of the page that can be read;
* a cached page has the sheet;
* if no dirty page is cached, then the image has the sheet too.

So a clean page may leave the cache at any time, and a dirty one once it has been written.  The
lemmas of this file are about the disk: a page is read (`Mirrors.readPage`), written where it was
(`Mirrors.writePage`) and appended (`Mirrors.appendPage`).
-/
import RowStore.Proofs.Database.Files
import RowStore.Proofs.Database.Sheets
import RowStore.Proofs.Lru.Lookup

namespace RowStore

/-! ## 1. Shelves -/

structure Shelf where
  ref : TableRef
  /-- The path of the table's file. -/
  path : String
  layout : Layout
  sheets : List Sheet

abbrev Shelves := TableId → Option Shelf

namespace Shelf

/-- The image of a page on the disk. -/
def read (s : Shelf) (disk : Disk) (number : Nat) : Except IoFault Bytes :=
  disk.read s.path (number * s.layout.pageSize) s.layout.pageSize

/-- The shelf is that of an open table file. -/
structure Describes (s : Shelf) (id : TableId) (f : TableFile) : Prop where
  id : f.id = id
  path : f.path = s.path
  layout : f.layout = s.layout
  count : f.pageCount = s.sheets.length

/-- The table that the shelf holds. -/
def table (s : Shelf) : Reference.Table := ⟨s.layout.schema, s.layout.slots, s.sheets⟩

end Shelf

/-- The tables that the shelves hold. -/
def Shelves.store (shelves : Shelves) : Reference := fun id => (shelves id).map (·.table)

/-- The catalog knows just the tables that have shelves; their files are ordinary ones, and no file
belongs to two tables. -/
structure Stands (db : Database) (shelves : Shelves) : Prop where
  entries : ∀ id, db.catalog.tables[id]?.map (·.file) = (shelves id).map (·.ref)
  files : ∀ {id s}, shelves id = some s → ∃ f, db.files[s.ref.index]? = some f ∧ s.Describes id f
  ordinary : ∀ {id s}, shelves id = some s →
    db.disk.PageFile s.path s.layout.pageSize s.sheets.length
  paths : ∀ {id id' s s'}, shelves id = some s → shelves id' = some s' → s.path = s'.path → id = id'

/-- Disk and cache mean the sheet by the page. -/
structure PageMirrors (disk : Disk) (cache : Lru PageId Frame) (s : Shelf) (id : PageId)
    (sheet : Sheet) : Prop where
  onDisk : ∃ image page, s.read disk id.number = .ok image ∧
    Page.decode id s.layout image = .ok page ∧
      ((∀ frame, cache.peek? id = some frame → frame.page.dirty = false) → page.sheet = sheet)
  cached : ∀ frame, cache.peek? id = some frame → frame.page.Valid ∧ frame.page.id = id ∧
    frame.page.layout = s.layout ∧ frame.page.sheet = sheet

/-- **Disk and cache mean the sheets on the shelves**, and only their pages are cached. -/
structure Mirrors (db : Database) (shelves : Shelves) : Prop extends Stands db shelves where
  inOrder : db.pool.cache.InOrder
  pages : ∀ {id s sheet}, shelves id.table = some s → s.sheets[id.number]? = some sheet →
    PageMirrors db.disk db.pool.cache s id sheet
  within : ∀ {id frame}, db.pool.cache.peek? id = some frame →
    ∃ s, shelves id.table = some s ∧ id.number < s.sheets.length

/-- Nobody holds a cached page. -/
def Idle (db : Database) : Prop :=
  ∀ id frame, db.pool.cache.peek? id = some frame → frame.pins = 0

theorem PageId.ne_number {id id' : PageId} (hne : id' ≠ id) (htable : id'.table = id.table) :
    id'.number ≠ id.number := by
  intro hnumber
  obtain ⟨table, number⟩ := id
  obtain ⟨table', number'⟩ := id'
  exact hne (PageId.mk.injEq .. ▸ ⟨htable, hnumber⟩)

/-- A page is meant as before if its image and its frame are as before. -/
theorem PageMirrors.congr {disk disk' : Disk} {cache cache' : Lru PageId Frame} {s s' : Shelf}
    {id : PageId} {sheet : Sheet} (h : PageMirrors disk cache s id sheet)
    (hlayout : s'.layout = s.layout) (hread : s'.read disk' id.number = s.read disk id.number)
    (hpeek : cache'.peek? id = cache.peek? id) : PageMirrors disk' cache' s' id sheet where
  onDisk := by
    rw [hread, hlayout, hpeek]
    exact h.onDisk
  cached := by
    rw [hpeek, hlayout]
    exact h.cached

/-! ## 2. Looking up -/

namespace Stands

variable {db : Database} {shelves : Shelves} {id : TableId} {s : Shelf}

theorem tableOf (h : Stands db shelves) (hs : shelves id = some s) :
    (Database.tableOf id).run db = .ok s.ref db := by
  have hentry := h.entries id
  rw [hs, Option.map_some, Option.map_eq_some_iff] at hentry
  obtain ⟨entry, hentry, href⟩ := hentry
  simp only [Database.tableOf, EStateM.run_bind, EStateM.run_get, hentry, EStateM.run_pure, href]

theorem tableOf_none (h : Stands db shelves) (hs : shelves id = none) :
    (Database.tableOf id).run db = .error (.noSuchTable id) db := by
  have hentry := h.entries id
  rw [hs, Option.map_none, Option.map_eq_none_iff] at hentry
  simp only [Database.tableOf, EStateM.run_bind, EStateM.run_get, hentry]
  rfl

theorem file (h : Stands db shelves) (hs : shelves id = some s) :
    ∃ f, (Database.file s.ref).run db = .ok f db ∧ db.files[s.ref.index]? = some f ∧
      s.Describes id f := by
  obtain ⟨f, hf, hd⟩ := h.files hs
  refine ⟨f, ?_, hf, hd⟩
  simp only [Database.file, EStateM.run_bind, EStateM.run_get, hf, EStateM.run_pure]

/-- Two tables have two files. -/
theorem ref_ne (h : Stands db shelves) (hs : shelves id = some s) {id' : TableId} {s' : Shelf}
    (hs' : shelves id' = some s') (hne : id' ≠ id) : s'.ref.index ≠ s.ref.index := by
  intro hindex
  obtain ⟨f, hf, hd⟩ := h.files hs
  obtain ⟨f', hf', hd'⟩ := h.files hs'
  rw [hindex, hf, Option.some.injEq] at hf'
  exact hne (by rw [← hd'.id, ← hd.id, hf'])

/-- The pool has nothing to do with it. -/
theorem withPool (h : Stands db shelves) (pool : Pool) : Stands { db with pool } shelves :=
  ⟨h.entries, h.files, h.ordinary, h.paths⟩

/-- Only the counters of a table file change. -/
theorem count (h : Stands db shelves) (index : Nat) (change : TableFile → TableFile)
    (hchange : ∀ f, (change f).id = f.id ∧ (change f).path = f.path ∧
      (change f).layout = f.layout ∧ (change f).pageCount = f.pageCount) :
    Stands { db with files := db.files.modify index change } shelves where
  entries := h.entries
  files := by
    intro id s hs
    obtain ⟨f, hf, hd⟩ := h.files hs
    obtain ⟨hid, hpath, hlayout, hcount⟩ := hchange f
    by_cases hi : index = s.ref.index
    · refine ⟨change f, by simp [Array.getElem?_modify, hi, hf], ?_⟩
      exact ⟨hid.trans hd.id, hpath.trans hd.path, hlayout.trans hd.layout, hcount.trans hd.count⟩
    · exact ⟨f, by simp [Array.getElem?_modify, hi, hf], hd⟩
  ordinary := h.ordinary
  paths := h.paths

end Stands

/-! ## 3. Reading a page -/

namespace Mirrors

variable {db : Database} {shelves : Shelves} {id : PageId} {s : Shelf}

/-- A page that can be read is read; nothing but a counter changes. -/
theorem readPage (h : Mirrors db shelves) (hs : shelves id.table = some s) {image : Bytes}
    {page : Page} (hread : s.read db.disk id.number = .ok image)
    (hdecode : Page.decode id s.layout image = .ok page) :
    ∃ db', (Database.readPage s.ref id.number).run db = .ok page db' ∧ db'.pool = db.pool ∧
      Mirrors db' shelves := by
  obtain ⟨f, hfile, -, hd⟩ := h.file hs
  have hid : (⟨f.id, id.number⟩ : PageId) = id := by rw [hd.id]
  have hdisk : db.disk.read s.path (id.offset s.layout.pageSize) s.layout.pageSize = .ok image :=
    hread
  refine ⟨{ db with files := db.files.modify s.ref.index fun f => { f with reads := f.reads + 1 } },
    ?_, rfl, ?_⟩
  · simp only [Database.readPage, EStateM.run_bind, hfile, EStateM.run_get, hid, hd.path, hd.layout,
      hdisk, Database.attemptIo, EStateM.run_pure, Database.modifyFile, EStateM.run_modify,
      hdecode, Database.attempt]
  · exact
      { toStands := h.toStands.count _ _ fun _ => ⟨rfl, rfl, rfl, rfl⟩
        inOrder := h.inOrder
        pages := h.pages
        within := h.within }

/-- A page behind the table cannot be read, and nothing changes. -/
theorem readPage_behind (h : Mirrors db shelves) (hs : shelves id.table = some s)
    (hbehind : s.sheets.length ≤ id.number) :
    (Database.readPage s.ref id.number).run db = .error (.io .unexpectedEof) db := by
  obtain ⟨f, hfile, -, hd⟩ := h.file hs
  have hid : (⟨f.id, id.number⟩ : PageId) = id := by rw [hd.id]
  have hdisk : db.disk.read s.path (id.offset s.layout.pageSize) s.layout.pageSize =
      .error .unexpectedEof := (h.ordinary hs).read_behind hbehind
  simp only [Database.readPage, EStateM.run_bind, hfile, EStateM.run_get, hid, hd.path, hd.layout,
    hdisk, Database.attemptIo]
  rfl

end Mirrors

/-! ## 4. Writing a page -/

/-- The shelves with other sheets on one of them. -/
def Shelves.update (shelves : Shelves) (id : TableId) (s : Shelf) (sheets : List Sheet) : Shelves :=
  Function.update shelves id (some { s with sheets })

namespace Shelves

variable {shelves : Shelves} {id : TableId} {s : Shelf} {sheets : List Sheet}

theorem update_self : shelves.update id s sheets id = some { s with sheets } :=
  Function.update_self ..

theorem update_of_ne {id' : TableId} (h : id' ≠ id) :
    shelves.update id s sheets id' = shelves id' := Function.update_of_ne h ..

theorem update_eq_some {id' : TableId} {s' : Shelf}
    (h : shelves.update id s sheets id' = some s') :
    (id' = id ∧ s' = { s with sheets }) ∨ (id' ≠ id ∧ shelves id' = some s') := by
  by_cases hid : id' = id
  · subst hid
    rw [update_self, Option.some.injEq] at h
    exact Or.inl ⟨rfl, h.symm⟩
  · rw [update_of_ne hid] at h
    exact Or.inr ⟨hid, h⟩

theorem update_update (sheets' : List Sheet) :
    (shelves.update id s sheets).update id { s with sheets } sheets' =
      shelves.update id s sheets' := Function.update_idem ..

theorem update_eq_self (hs : shelves id = some s) : shelves.update id s s.sheets = shelves := by
  rw [update, ← hs, Function.update_eq_self]

theorem map_ref_update (hs : shelves id = some s) (id' : TableId) :
    (shelves.update id s sheets id').map (·.ref) = (shelves id').map (·.ref) := by
  by_cases hid : id' = id
  · subst hid
    rw [update_self, hs]
    rfl
  · rw [update_of_ne hid]

/-- A page of a table stays one if no sheets are taken away. -/
theorem within_update (hs : shelves id = some s) (hle : s.sheets.length ≤ sheets.length)
    {page : PageId} (h : ∃ s', shelves page.table = some s' ∧ page.number < s'.sheets.length) :
    ∃ s', shelves.update id s sheets page.table = some s' ∧ page.number < s'.sheets.length := by
  obtain ⟨s', hs', hlt⟩ := h
  by_cases htable : page.table = id
  · rw [htable] at hs' ⊢
    obtain rfl : s = s' := Option.some.inj (hs.symm.trans hs')
    exact ⟨_, update_self, Nat.lt_of_lt_of_le hlt hle⟩
  · exact ⟨s', (update_of_ne htable).trans hs', hlt⟩

theorem store_update : (shelves.update id s sheets).store =
    Function.update shelves.store id (some { s.table with pages := sheets }) := by
  funext id'
  by_cases h : id' = id
  · subst h
    simp [store, update_self, Shelf.table]
  · simp [store, update_of_ne h, h]

theorem store_of_some (hs : shelves id = some s) : shelves.store id = some s.table := by
  rw [store, hs, Option.map_some]

theorem store_of_none (hs : shelves id = none) : shelves.store id = none := by
  rw [store, hs, Option.map_none]

end Shelves

namespace Stands

variable {db : Database} {shelves : Shelves} {id : TableId} {s : Shelf}

theorem paths_update (h : Stands db shelves) (hs : shelves id = some s) {sheets : List Sheet}
    {a b : TableId} {sa sb : Shelf} (ha : shelves.update id s sheets a = some sa)
    (hb : shelves.update id s sheets b = some sb) (hpath : sa.path = sb.path) : a = b := by
  have hold : ∀ {x sx}, shelves.update id s sheets x = some sx →
      ∃ sx', shelves x = some sx' ∧ sx'.path = sx.path := by
    intro x sx hx
    rcases Shelves.update_eq_some hx with ⟨rfl, rfl⟩ | ⟨-, hx⟩
    · exact ⟨s, hs, rfl⟩
    · exact ⟨sx, hx, rfl⟩
  obtain ⟨sa', ha', hpa⟩ := hold ha
  obtain ⟨sb', hb', hpb⟩ := hold hb
  exact h.paths ha' hb' (by rw [hpa, hpb, hpath])

/-- Other sheets on a shelf, but as many. -/
theorem update (h : Stands db shelves) (hs : shelves id = some s) {sheets : List Sheet}
    (hsheets : sheets.length = s.sheets.length) : Stands db (shelves.update id s sheets) where
  entries id' := (h.entries id').trans (Shelves.map_ref_update hs id').symm
  files := by
    intro id' s' hs'
    rcases Shelves.update_eq_some hs' with ⟨rfl, rfl⟩ | ⟨-, hs'⟩
    · obtain ⟨f, hf, hd⟩ := h.files hs
      exact ⟨f, hf, hd.id, hd.path, hd.layout, hd.count.trans hsheets.symm⟩
    · exact h.files hs'
  ordinary := by
    intro id' s' hs'
    rcases Shelves.update_eq_some hs' with ⟨rfl, rfl⟩ | ⟨-, hs'⟩
    · rw [hsheets]
      exact h.ordinary hs
    · exact h.ordinary hs'
  paths := h.paths_update hs

/-- **A page is written into its table or right behind it.**  It reads back, and all other pages of
all tables read as before. -/
theorem writeAt (h : Stands db shelves) (hs : shelves id = some s) {number : Nat}
    (hnumber : number ≤ s.sheets.length) {image : Bytes}
    (himage : image.length = s.layout.pageSize) {sheets : List Sheet}
    (hsheets : sheets.length = max s.sheets.length (number + 1)) :
    ∃ db', (Database.writeAt s.ref number image).run db = .ok () db' ∧ db'.pool = db.pool ∧
      Stands db' (shelves.update id s sheets) ∧ s.read db'.disk number = .ok image ∧
      ∀ id' s' m, shelves id' = some s' → (id' = id → m ≠ number) →
        s'.read db'.disk m = s'.read db.disk m := by
  obtain ⟨f, hfile, hf, hd⟩ := h.file hs
  obtain ⟨disk, hwrite, hcount, hback, hrest, hother⟩ := (h.ordinary hs).write hnumber himage
  refine ⟨{ db with disk, files := db.files.modify s.ref.index fun f =>
    { f with pageCount := max f.pageCount (number + 1), writes := f.writes + 1 } }, ?_, rfl, ?_,
    hback, ?_⟩
  · simp only [Database.writeAt, EStateM.run_bind, hfile, EStateM.run_get, hd.path, hd.layout,
      hwrite, Database.attemptIo, EStateM.run_pure, EStateM.run_set, Database.modifyFile,
      EStateM.run_modify]
  · refine ⟨fun id' => ?_, fun {id' s'} hs' => ?_, fun {id' s'} hs' => ?_, h.paths_update hs⟩
    · exact (h.entries id').trans (Shelves.map_ref_update hs id').symm
    · rcases Shelves.update_eq_some hs' with ⟨rfl, rfl⟩ | ⟨hid, hs'⟩
      · refine ⟨{ f with pageCount := max f.pageCount (number + 1), writes := f.writes + 1 },
          by simp [Array.getElem?_modify, hf], hd.id, hd.path, hd.layout, ?_⟩
        simp only [hd.count, hsheets]
      · obtain ⟨f', hf', hd'⟩ := h.files hs'
        exact ⟨f', by simp [Array.getElem?_modify, (h.ref_ne hs hs' hid).symm, hf'], hd'⟩
    · rcases Shelves.update_eq_some hs' with ⟨rfl, rfl⟩ | ⟨hid, hs'⟩
      · rw [hsheets]
        exact hcount
      · have hpath : s'.path ≠ s.path := fun hp => hid (h.paths hs' hs hp)
        obtain ⟨g, hg, hrestg⟩ := h.ordinary hs'
        exact ⟨g, (hother _ hpath).trans hg, hrestg⟩
  · intro id' s' m hs' hm
    by_cases hid : id' = id
    · subst hid
      rw [hs, Option.some.injEq] at hs'
      subst hs'
      exact hrest m (hm rfl)
    · have hpath : s'.path ≠ s.path := fun hp => hid (h.paths hs' hs hp)
      rw [Shelf.read, Shelf.read, Disk.read, Disk.read, hother _ hpath]

end Stands

namespace Mirrors

variable {db : Database} {shelves : Shelves} {s : Shelf}

/-- **A page is written where it was.**  Disk and cache mean the same sheets as before, and the disk
has the page now. -/
theorem writePage {id : PageId} (h : Mirrors db shelves) (hs : shelves id.table = some s)
    {sheet : Sheet} (hsheet : s.sheets[id.number]? = some sheet) {page : Page} (hv : page.Valid)
    (hid : page.id = id) (hlayout : page.layout = s.layout) (hpage : page.sheet = sheet) :
    ∃ db', (Database.writePage s.ref page).run db = .ok () db' ∧ db'.pool = db.pool ∧
      Mirrors db' shelves ∧ s.read db'.disk id.number = .ok page.encode := by
  have hlt : id.number < s.sheets.length := (List.getElem?_eq_some_iff.mp hsheet).1
  have himage : page.encode.length = s.layout.pageSize := by rw [hv.length_encode, hlayout]
  have hcount : s.sheets.length = max s.sheets.length (id.number + 1) := (Nat.max_eq_left hlt).symm
  obtain ⟨db', hrun, hpool, hstands, hback, hrest⟩ :=
    h.writeAt hs (Nat.le_of_lt hlt) himage hcount
  rw [Shelves.update_eq_self hs] at hstands
  refine ⟨db', by rw [Database.writePage, hid]; exact hrun, hpool, ?_, hback⟩
  refine { toStands := hstands, inOrder := hpool ▸ h.inOrder, pages := ?_, within := ?_ }
  · intro id' s' sheet' hs' hsheet'
    have hold := h.pages hs' hsheet'
    by_cases hsame : id' = id
    · subst hsame
      rw [hs, Option.some.injEq] at hs'
      subst hs'
      rw [hsheet, Option.some.injEq] at hsheet'
      subst hsheet'
      have hdecode := hv.decode_encode
      rw [hid, hlayout] at hdecode
      exact ⟨⟨page.encode, _, hback, hdecode, fun _ => hpage⟩, by rw [hpool]; exact hold.cached⟩
    · exact hold.congr rfl (hrest _ _ _ hs' (PageId.ne_number hsame)) (by rw [hpool])
  · rw [hpool]
    exact h.within

/-- **A page is appended**; it holds no rows, and it is not cached. -/
theorem appendPage {id : TableId} (h : Mirrors db shelves) (hs : shelves id = some s) :
    ∃ db', (Database.appendPage s.ref).run db = .ok ⟨id, s.sheets.length⟩ db' ∧
      db'.pool = db.pool ∧
      Mirrors db' (shelves.update id s s.table.grown.pages) := by
  obtain ⟨f, hfile, -, hd⟩ := h.file hs
  change ∃ db', _ ∧ _ ∧
    Mirrors db' (shelves.update id s (s.sheets ++ [List.replicate s.layout.slots none]))
  have hlength : (s.sheets ++ [List.replicate s.layout.slots none]).length =
      max s.sheets.length (s.sheets.length + 1) := by
    simp
  have himage : (Page.zeroImage s.layout.pageSize).length = s.layout.pageSize :=
    List.length_replicate
  obtain ⟨db', hrun, hpool, hstands, hback, hrest⟩ :=
    h.writeAt hs (Nat.le_refl _) himage hlength
  refine ⟨db', ?_, hpool, ?_⟩
  · simp only [Database.appendPage, EStateM.run_bind, hfile, hd.layout, hd.count, hrun,
      EStateM.run_pure, hd.id]
  have hfresh : ∀ frame, db.pool.cache.peek? ⟨id, s.sheets.length⟩ ≠ some frame := by
    intro frame hframe
    obtain ⟨s', hs', hlt⟩ := h.within hframe
    rw [hs, Option.some.injEq] at hs'
    subst hs'
    exact Nat.lt_irrefl _ hlt
  refine { toStands := hstands, inOrder := hpool ▸ h.inOrder, pages := ?_, within := ?_ }
  · intro id' s' sheet' hs' hsheet'
    by_cases htable : id'.table = id
    · rw [htable, Shelves.update_self, Option.some.injEq] at hs'
      subst hs'
      obtain ⟨table', number'⟩ := id'
      subst htable
      by_cases hlt : number' < s.sheets.length
      · rw [List.getElem?_append_left hlt] at hsheet'
        have hread : s.read db'.disk number' = s.read db.disk number' :=
          hrest _ _ _ hs fun _ => Nat.ne_of_lt hlt
        exact (h.pages hs hsheet').congr rfl hread (by rw [hpool])
      · have hle := (List.getElem?_eq_some_iff.mp hsheet').1
        simp only [List.length_append, List.length_singleton] at hle
        obtain rfl : number' = s.sheets.length := by omega
        rw [List.getElem?_concat_length, Option.some.injEq] at hsheet'
        subst hsheet'
        refine ⟨⟨_, _, hback, Page.decode_zeroImage _ _, fun _ => Page.sheet_empty _ _⟩, ?_⟩
        intro frame hframe
        rw [hpool] at hframe
        exact absurd hframe (hfresh frame)
    · rw [Shelves.update_of_ne htable] at hs'
      exact (h.pages hs' hsheet').congr rfl (hrest _ _ _ hs' fun he => absurd he htable)
        (by rw [hpool])
  · intro id' frame hframe
    rw [hpool] at hframe
    exact Shelves.within_update hs (by simp) (h.within hframe)

end Mirrors

end RowStore
