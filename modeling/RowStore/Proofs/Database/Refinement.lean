/-
# The database answers as its tables would without a cache

One request: whatever disk and cache say before, the database answers what the reference answers,
and disk and cache say what the reference holds afterwards (`Mirrors.answer`).  Any number of
requests, by induction (`Mirrors.answers`).

It remains to say where this starts.  `Ordinary` is what is asked of the files of a database whose
tables have been opened and whose pool is empty; `reference` reads from its disk what the tables
hold.  The main result, `answers_eq_reference`, holds for pools of every capacity, and since the
reference has no pool, two capacities cannot be told apart.
-/
import RowStore.Proofs.Database.Opening
import RowStore.Proofs.Database.Rows
import RowStore.Proofs.Stream.Scan
import Mathlib

namespace RowStore

/-! ## 1. One request -/

/-- The outcome of a computation that ends in a state. -/
def ended {α : Type} (db : Database) : Except Error α → EStateM.Result Error Database α
  | .ok a => .ok a db
  | .error e => .error e db

namespace Mirrors

variable {db : Database} {shelves : Shelves} {s : Shelf}

/-- The rows of a table have its schema. -/
theorem schema_rows {id : TableId} (h : Mirrors db shelves) (hs : shelves id = some s) :
    ∀ row ∈ s.table.rows id, row.schema = s.layout.schema := by
  intro row hrow
  rw [Reference.Table.rows_eq_flatMap, List.mem_flatMap] at hrow
  obtain ⟨number, hnumber, hrow⟩ := hrow
  have hlt : number < s.sheets.length := List.mem_range.mp hnumber
  have hm := @h.pages ⟨id, number⟩ s _ hs (List.getElem?_eq_getElem hlt)
  -- the sheet is that of a page in order, on the disk or in the cache
  obtain ⟨page, hv, hlayout, hpage⟩ : ∃ page : Page, page.Valid ∧ page.layout = s.layout ∧
      page.sheet = s.sheets[number] := by
    cases hframe : db.pool.cache.peek? ⟨id, number⟩ with
    | some frame =>
      obtain ⟨hv, -, hlayout, hpage⟩ := hm.cached frame hframe
      exact ⟨frame.page, hv, hlayout, hpage⟩
    | none =>
      obtain ⟨image, page, -, hdecode, hsays⟩ := hm.onDisk
      refine ⟨page, Page.Valid.of_decode hdecode, ?_, hsays fun frame hf => ?_⟩
      · obtain ⟨-, slots, -, rfl⟩ := Page.decode_cases hdecode
        rfl
      · exact absurd (hframe.symm.trans hf) (by simp)
  rw [Reference.Table.pageRows, List.mem_filterMap] at hrow
  obtain ⟨slot, -, hrow⟩ := hrow
  have hsheet : s.table.row? number slot = page.sheet[slot]?.join := by
    simp only [Reference.Table.row?, Shelf.table, List.getElem?_eq_getElem hlt, Option.bind_some,
      hpage]
  rw [hsheet, Page.join_getElem?_sheet, Option.map_map, Option.map_eq_some_iff] at hrow
  obtain ⟨stored, hstored, rfl⟩ := hrow
  exact (hv.schema_eq hstored).trans (by rw [hlayout])

/-- A scan to the end gives the rows of the table. -/
theorem scanTable {id : TableId} (h : Mirrors db shelves) (hidle : Idle db)
    (hs : shelves id = some s) :
    ∃ db', (Database.scanTable id).run db = .ok (s.table.rows id) db' ∧ Mirrors db' shelves ∧
      Idle db' := by
  obtain ⟨f, hfile, -, hd⟩ := h.file hs
  obtain ⟨state, db', hrun, ⟨h', hidle'⟩, -⟩ :=
    (Scan.replays hs (h.schema_rows hs)).drain none ⟨h, hidle⟩
  refine ⟨db', ?_, h', hidle'⟩
  simp only [Database.scanTable, EStateM.run_bind, h.tableOf hs, hfile, hd.layout]
  exact StreamM.runFrom_ok hrun

/-- The request is answered as the reference answers it, and disk and cache say afterwards what the
reference holds. -/
def Answers (db : Database) (shelves : Shelves) (request : Request) : Prop :=
  ∃ db' shelves', Mirrors db' shelves' ∧ Idle db' ∧
    (Database.answer request).run db = ended db' (shelves.store.answer request).1 ∧
    shelves'.store = (shelves.store.answer request).2

theorem answer_insert (h : Mirrors db shelves) (hidle : Idle db) (table : TableId) (row : Row) :
    Answers db shelves (.insert table row) := by
  cases hs : shelves table with
  | none =>
    refine ⟨db, shelves, h, hidle, ?_, ?_⟩
    · simp only [Database.answer, Database.insert, EStateM.run_bind, h.tableOf_none hs,
        Reference.answer, Shelves.store_of_none hs, ended]
    · simp only [Reference.answer, Shelves.store_of_none hs]
  | some s =>
    have hstore := Shelves.store_of_some hs
    by_cases hrow : row.schema = s.layout.schema
    · have hschema : ¬ row.schema ≠ s.table.schema := not_not.mpr hrow
      obtain ⟨db', hrun, h', hidle'⟩ := h.insertInFile hidle hs hrow
      refine ⟨db', _, h', hidle', ?_, ?_⟩
      · simp only [Database.answer, Database.insert, EStateM.run_bind, h.tableOf hs, hrun,
          EStateM.run_pure, Reference.answer, hstore, hschema, if_false, ended]
      · simp only [Reference.answer, hstore, hschema, if_false, Shelves.store_update]
        rw [Reference.Table.withPages_insert]
    · have hschema : row.schema ≠ s.table.schema := hrow
      obtain ⟨f, hfile, -, hd⟩ := h.file hs
      have hfault : row.schema ≠ f.layout.schema := by rwa [hd.layout]
      refine ⟨db, shelves, h, hidle, ?_, ?_⟩
      · simp only [Database.answer, Database.insert, EStateM.run_bind, h.tableOf hs,
          Database.insertInFile, hfile, ne_eq, hfault, not_false_eq_true, if_true,
          Reference.answer, hstore, hschema, ended, hd.id]
        rfl
      · simp only [Reference.answer, hstore, ne_eq, hschema, not_false_eq_true, if_true]

theorem answer_delete (h : Mirrors db shelves) (hidle : Idle db) (row : Row) :
    Answers db shelves (.delete row) := by
  cases hplace : row.place with
  | none =>
    refine ⟨db, shelves, h, hidle, ?_, ?_⟩
    · simp only [Database.answer, Database.delete, EStateM.run_bind, hplace, Reference.answer,
        ended]
      rfl
    · simp only [Reference.answer, hplace]
  | some place =>
    obtain ⟨page, slot⟩ := place
    cases hs : shelves page.table with
    | none =>
      have hstore := Shelves.store_of_none hs
      refine ⟨db, shelves, h, hidle, ?_, ?_⟩
      · simp only [Database.answer, Database.delete, EStateM.run_bind, hplace, h.tableOf_none hs,
          Reference.answer, hstore, ended]
      · simp only [Reference.answer, hplace, hstore]
    | some s =>
      have hstore := Shelves.store_of_some hs
      obtain ⟨f, hfile, -, hd⟩ := h.file hs
      by_cases hbehind : s.sheets.length ≤ page.number
      · have hpages : s.table.pages.length ≤ page.number := hbehind
        have htable : ¬ page.table ≠ f.id := not_not.mpr hd.id.symm
        refine ⟨db, shelves, h, hidle, ?_, ?_⟩
        · simp only [Database.answer, Database.delete, EStateM.run_bind, hplace, h.tableOf hs,
            Database.deleteInFile, hfile, htable, if_false, hd.count, hbehind, if_true,
            Reference.answer, hstore, hpages, ended]
          rfl
        · simp only [Reference.answer, hplace, hstore, hpages, if_true]
      · have hlt : page.number < s.sheets.length := Nat.lt_of_not_le hbehind
        have hpages : ¬ s.table.pages.length ≤ page.number := hbehind
        cases hfree : (s.table.row? page.number slot).isNone with
        | true =>
          obtain ⟨db', hrun, h', hidle'⟩ := h.deleteInFile_empty hidle hs hlt hplace hfree
          refine ⟨db', shelves, h', hidle', ?_, ?_⟩
          · simp only [Database.answer, Database.delete, EStateM.run_bind, hplace, h.tableOf hs,
              hrun, Reference.answer, hstore, hpages, if_false, hfree, if_true, ended]
          · simp only [Reference.answer, hplace, hstore, hpages, if_false, hfree, if_true]
        | false =>
          obtain ⟨db', hrun, h', hidle'⟩ := h.deleteInFile hidle hs hlt hplace hfree
          refine ⟨db', _, h', hidle', ?_, ?_⟩
          · simp only [Database.answer, Database.delete, EStateM.run_bind, hplace, h.tableOf hs,
              hrun, EStateM.run_pure, Reference.answer, hstore, hpages, if_false, hfree,
              Bool.false_eq_true, ended]
          · simp only [Reference.answer, hplace, hstore, hpages, if_false, hfree,
              Bool.false_eq_true, Shelves.store_update]
            rfl

theorem answer_fetch (h : Mirrors db shelves) (hidle : Idle db) (page : PageId) :
    Answers db shelves (.fetch page) := by
  cases hs : shelves page.table with
  | none =>
    have hrun := h.fetch_error hidle (Or.inl ⟨hs, rfl⟩)
    refine ⟨db, shelves, h, hidle, ?_, ?_⟩
    · simp only [Database.answer, EStateM.run_bind, hrun, Reference.answer,
        Shelves.store_of_none hs, ended]
    · simp only [Reference.answer, Shelves.store_of_none hs]
  | some s =>
    have hstore := Shelves.store_of_some hs
    by_cases hlt : page.number < s.sheets.length
    · have hsheet : s.sheets[page.number]? = some s.sheets[page.number] :=
        List.getElem?_eq_getElem hlt
      have hpages : s.table.pages[page.number]? = some s.sheets[page.number] := hsheet
      obtain ⟨frame, db', hrun, h', hidle', hframe⟩ := h.fetch hidle hs hsheet
      obtain ⟨hv, hid, -, hpage⟩ := (h'.pages hs hsheet).cached frame hframe
      have hplaced := hv.placed_sheet
      rw [hid, hpage] at hplaced
      refine ⟨db', shelves, h', hidle', ?_, ?_⟩
      · simp only [Database.answer, EStateM.run_bind, hrun, EStateM.run_pure, Reference.answer,
          hstore, hpages, hplaced, ended]
      · simp only [Reference.answer, hstore, hpages]
    · have hle : s.sheets.length ≤ page.number := Nat.le_of_not_lt hlt
      have hpages : s.table.pages[page.number]? = none := List.getElem?_eq_none hle
      have hrun := h.fetch_error hidle (Or.inr ⟨s, hs, hle, rfl⟩)
      refine ⟨db, shelves, h, hidle, ?_, ?_⟩
      · simp only [Database.answer, EStateM.run_bind, hrun, Reference.answer, hstore, hpages, ended]
      · simp only [Reference.answer, hstore, hpages]

theorem answer_scan (h : Mirrors db shelves) (hidle : Idle db) (table : TableId) :
    Answers db shelves (.scan table) := by
  cases hs : shelves table with
  | none =>
    refine ⟨db, shelves, h, hidle, ?_, ?_⟩
    · simp only [Database.answer, Database.scanTable, EStateM.run_bind, h.tableOf_none hs,
        Reference.answer, Shelves.store_of_none hs, ended]
    · simp only [Reference.answer, Shelves.store_of_none hs]
  | some s =>
    have hstore := Shelves.store_of_some hs
    obtain ⟨db', hrun, h', hidle'⟩ := h.scanTable hidle hs
    refine ⟨db', shelves, h', hidle', ?_, ?_⟩
    · simp only [Database.answer, EStateM.run_bind, hrun, EStateM.run_pure, Reference.answer,
        hstore, ended]
    · simp only [Reference.answer, hstore]

/-- **One request.** -/
theorem answer (h : Mirrors db shelves) (hidle : Idle db) (request : Request) :
    Answers db shelves request := by
  cases request with
  | insert table row => exact h.answer_insert hidle table row
  | delete row => exact h.answer_delete hidle row
  | fetch page => exact h.answer_fetch hidle page
  | flush page =>
    obtain ⟨cached, db', hrun, h', hk⟩ := h.flushPage page
    refine ⟨db', shelves, h', hidle.kept hk, ?_, rfl⟩
    simp only [Database.answer, EStateM.run_bind, hrun, EStateM.run_pure, Reference.answer, ended]
  | flushAll =>
    obtain ⟨db', hrun, h', hk⟩ := h.flushAll
    refine ⟨db', shelves, h', hidle.kept hk, ?_, rfl⟩
    simp only [Database.answer, EStateM.run_bind, hrun, EStateM.run_pure, Reference.answer, ended]
  | scan table => exact h.answer_scan hidle table

/-- **Any number of requests.** -/
theorem answers (h : Mirrors db shelves) (hidle : Idle db) (requests : List Request) :
    db.answers requests = shelves.store.answers requests := by
  induction requests generalizing db shelves with
  | nil => rfl
  | cons request requests ih =>
    obtain ⟨db', shelves', h', hidle', hrun, hstore⟩ := h.answer hidle request
    have hrest := ih h' hidle'
    cases hanswer : shelves.store.answer request with
    | mk result store =>
      rw [hanswer] at hrun hstore
      rw [hstore] at hrest
      rw [Database.answers, Reference.answers, hrun, hanswer]
      cases result with
      | ok a => exact congrArg (Except.ok a :: ·) hrest
      | error e => exact congrArg (Except.error e :: ·) hrest

end Mirrors

/-! ## 2. Where it starts -/

namespace Database

/-- The tables have ordinary files, each its own, and every whole page of the files can be read. -/
structure Ordinary (db : Database) : Prop where
  own : ∀ {a b : TableId} {f g : TableFile}, db.table? a = some f → db.table? b = some g →
    f.path = g.path → a = b
  regular : ∀ {id : TableId} {f : TableFile}, db.table? id = some f →
    ∃ file, db.disk.file? f.path = some file ∧ file.full = false ∧ file.endless = false
  readable : ∀ {id : TableId} {f : TableFile} {number : Nat}, db.table? id = some f →
    number < f.pageCount → ∃ image page,
      db.disk.read f.path (number * f.layout.pageSize) f.layout.pageSize = .ok image ∧
      Page.decode ⟨id, number⟩ f.layout image = .ok page

/-- What a page on the disk says. -/
def sheetOnDisk (disk : Disk) (id : TableId) (f : TableFile) (number : Nat) : Sheet :=
  match disk.read f.path (number * f.layout.pageSize) f.layout.pageSize with
  | .error _ => []
  | .ok image => match Page.decode ⟨id, number⟩ f.layout image with
    | .error _ => []
    | .ok page => page.sheet

/-- What the disk says about the tables. -/
def reference (db : Database) : Reference := fun id =>
  (db.table? id).map fun f => ⟨f.layout.schema, f.layout.slots,
    (List.range f.pageCount).map (sheetOnDisk db.disk id f)⟩

/-- The shelves of the tables, by what the disk says. -/
def shelves (db : Database) : Shelves := fun id =>
  db.catalog.tables[id]?.bind fun entry => db.files[entry.file.index]?.map fun f =>
    ⟨entry.file, f.path, f.layout, (List.range f.pageCount).map (sheetOnDisk db.disk id f)⟩

theorem store_shelves (db : Database) : db.shelves.store = db.reference := by
  funext id
  rw [Shelves.store, shelves, reference, table?]
  cases db.catalog.tables[id]? with
  | none => rfl
  | some entry =>
    simp only [Option.bind_some]
    cases db.files[entry.file.index]? <;> rfl

theorem shelves_eq_some {db : Database} {id : TableId} {s : Shelf} (h : db.shelves id = some s) :
    ∃ f, db.table? id = some f ∧ db.files[s.ref.index]? = some f ∧ f.path = s.path ∧
      f.layout = s.layout ∧
      s.sheets = (List.range f.pageCount).map (sheetOnDisk db.disk id f) := by
  rw [shelves, Option.bind_eq_some_iff] at h
  obtain ⟨entry, hentry, h⟩ := h
  rw [Option.map_eq_some_iff] at h
  obtain ⟨f, hf, rfl⟩ := h
  exact ⟨f, by rw [table?, hentry, Option.bind_some, hf], hf, rfl, rfl, rfl⟩

/-- **With nothing in the cache, the disk is all that is said.** -/
theorem mirrors_shelves {db : Database} (ho : db.Opened) (hord : db.Ordinary)
    (hempty : ∀ id, db.pool.cache.peek? id = none) (hcache : db.pool.cache.InOrder) :
    Mirrors db db.shelves where
  entries := by
    intro id
    rw [shelves]
    cases hentry : db.catalog.tables[id]? with
    | none => rfl
    | some entry =>
      obtain ⟨f, -, hf, -⟩ := ho id entry hentry
      simp only [Option.bind_some, hf, Option.map_some]
  files := by
    intro id s hs
    obtain ⟨f, htable, hf, hpath, hlayout, hsheets⟩ := shelves_eq_some hs
    refine ⟨f, hf, ?_, hpath, hlayout, by rw [hsheets, List.length_map, List.length_range]⟩
    rw [table?, Option.bind_eq_some_iff] at htable
    obtain ⟨entry, hentry, hfile⟩ := htable
    obtain ⟨f', -, hf', hid, -⟩ := ho id entry hentry
    rw [← Option.some.inj (hf'.symm.trans hfile), hid]
  ordinary := by
    intro id s hs
    obtain ⟨f, htable, -, hpath, hlayout, hsheets⟩ := shelves_eq_some hs
    obtain ⟨file, hfile, hfull, hendless⟩ := hord.regular htable
    rw [table?, Option.bind_eq_some_iff] at htable
    obtain ⟨entry, hentry, hf⟩ := htable
    obtain ⟨f', file', hf', -, hfile', hcount⟩ := ho id entry hentry
    obtain rfl : f' = f := Option.some.inj (hf'.symm.trans hf)
    obtain rfl : file' = file := Option.some.inj (hfile'.symm.trans hfile)
    have hsize := s.layout.pageSize_pos
    have hlength : s.sheets.length = file'.bytes.length / s.layout.pageSize := by
      rw [hsheets, List.length_map, List.length_range, hcount, hlayout]
    refine ⟨file', hpath ▸ hfile, hfull, hendless, ?_, ?_⟩
    · rw [hlength]
      exact Nat.div_mul_le_self _ _
    · rw [hlength, Nat.mul_comm]
      exact Nat.lt_mul_div_succ _ hsize
  paths := by
    intro a b sa sb ha hb hpath
    obtain ⟨f, hf, -, hfpath, -⟩ := shelves_eq_some ha
    obtain ⟨g, hg, -, hgpath, -⟩ := shelves_eq_some hb
    exact hord.own hf hg (by rw [hfpath, hgpath, hpath])
  inOrder := hcache
  pages := by
    intro id s sheet hs hsheet
    obtain ⟨f, htable, -, hpath, hlayout, hsheets⟩ := shelves_eq_some hs
    rw [hsheets, List.getElem?_map, Option.map_eq_some_iff] at hsheet
    obtain ⟨number, hnumber, rfl⟩ := hsheet
    obtain ⟨hlt, hget⟩ := List.getElem?_eq_some_iff.mp hnumber
    rw [List.getElem_range] at hget
    subst hget
    rw [List.length_range] at hlt
    obtain ⟨image, page, hread, hdecode⟩ := hord.readable htable hlt
    refine ⟨⟨image, page, ?_, hlayout ▸ hdecode, fun _ => ?_⟩, fun frame hframe => ?_⟩
    · rw [Shelf.read, ← hpath, ← hlayout]
      exact hread
    · simp only [sheetOnDisk, hread]
      rw [hdecode]
    · exact absurd ((hempty id).symm.trans hframe) (by simp)
  within := fun {id frame} hframe => absurd ((hempty id).symm.trans hframe) (by simp)

/-! ## 3. The result -/

/-- The database on a disk, before any table is opened. -/
theorem onDisk_eq (disk : Disk) (pageSize : Nat) {capacity : Nat} (h : 0 < capacity) :
    onDisk disk pageSize capacity =
      .ok ⟨disk, #[], .empty pageSize, ⟨Lru.empty capacity, [], 0⟩⟩ := by
  rw [onDisk, Pool.make, Lru.make, if_neg (Nat.ne_of_gt h)]
  rfl

theorem capacity_pos_of_onDisk {disk : Disk} {pageSize capacity : Nat} {db : Database}
    (h : onDisk disk pageSize capacity = .ok db) : 0 < capacity := by
  refine Nat.pos_of_ne_zero fun hzero => ?_
  rw [onDisk, Pool.make, Lru.make, if_pos hzero] at h
  cases h

/-- A database on which nothing is cached answers as its disk says. -/
theorem answers_of_empty {db : Database} (ho : db.Opened) (hord : db.Ordinary) {capacity : Nat}
    (hcapacity : 0 < capacity) (requests : List Request) :
    ({ db with pool := ⟨Lru.empty capacity, [], 0⟩ } : Database).answers requests =
      db.reference.answers requests := by
  have hempty : ∀ id, (Lru.empty capacity : Lru PageId Frame).peek? id = none :=
    Lru.peek?_empty capacity
  have hm := @mirrors_shelves { db with pool := ⟨Lru.empty capacity, [], 0⟩ } ho
    ⟨hord.own, hord.regular, hord.readable⟩ hempty (Lru.inOrder_empty hcapacity)
  rw [hm.answers (fun id frame hframe => absurd ((hempty id).symm.trans hframe) (by simp)),
    store_shelves]
  rfl

/-- **The pool does not show.**  Take the tables that any openings have led to, if their files are
ordinary ones, each table has its own, and the whole pages of the files can be read.  Any requests
are answered, in a pool of any capacity, as the tables without a pool answer them: the places that
rows are given, the pages that are changed, the rows of scans and pages, and every error.  So
two capacities give the same answers. -/
theorem answers_eq_reference {disk : Disk} {pageSize capacity : Nat} {db₀ : Database}
    (h₀ : onDisk disk pageSize capacity = .ok db₀) (openings : List Opening)
    (hord : (db₀.openAll openings).Ordinary) (requests : List Request) :
    ∀ capacity', 0 < capacity' → ∃ db₀', onDisk disk pageSize capacity' = .ok db₀' ∧
      (db₀'.openAll openings).answers requests =
        (db₀.openAll openings).reference.answers requests := by
  intro capacity' hcapacity'
  have hcapacity := capacity_pos_of_onDisk h₀
  rw [onDisk_eq disk pageSize hcapacity, Except.ok.injEq] at h₀
  have hopened : (db₀.openAll openings).Opened := by
    refine Opened.openAll (fun id entry hentry => ?_) openings
    rw [← h₀] at hentry
    exact absurd hentry (by simp [Catalog.empty])
  have hpool := openAll_withPool db₀ openings ⟨Lru.empty capacity', [], 0⟩
  rw [← answers_of_empty hopened hord hcapacity' requests, ← hpool]
  refine ⟨_, onDisk_eq disk pageSize hcapacity', ?_⟩
  rw [← h₀]

/-- The only table of a database is ordinary if its file is. -/
theorem ordinary_withTable {disk : Disk} {pageSize : Nat} {pool : Pool} {name place : String}
    {layout : Layout} {file : File} (hfile : disk.file? place = some file)
    (hfull : file.full = false) (hendless : file.endless = false)
    (hread : ∀ number < disk.size place / pageSize, ∃ image page,
      disk.read place (number * layout.pageSize) layout.pageSize = .ok image ∧
      Page.decode ⟨0, number⟩ layout image = .ok page) :
    (withTable ⟨disk, #[], .empty pageSize, pool⟩ name layout place disk).Ordinary := by
  have htable : ∀ {id f},
      (withTable ⟨disk, #[], .empty pageSize, pool⟩ name layout place disk).table? id = some f →
        id = 0 ∧ f = ⟨0, place, layout, disk.size place / pageSize, 0, 0⟩ := by
    intro id f hf
    simp only [table?, withTable, Catalog.empty, Std.TreeMap.getElem?_insert,
      Std.TreeMap.getElem?_emptyc] at hf
    split at hf
    · rename_i hid
      exact ⟨(Std.LawfulEqOrd.eq_of_compare hid).symm, (Option.some.inj hf).symm⟩
    · cases hf
  refine ⟨fun hf hg _ => (htable hf).1.trans (htable hg).1.symm, fun hf => ?_, fun hf hlt => ?_⟩
  · obtain ⟨-, rfl⟩ := htable hf
    exact ⟨file, hfile, hfull, hendless⟩
  · obtain ⟨rfl, rfl⟩ := htable hf
    exact hread _ hlt

/-- A file of one full page in a pool of one page: the row that comes needs a page of its own, for
which the first one has to leave. -/
theorem answers_eq_reference_onePage :
    ∃ (disk : Disk) (o : Opening) (row : Row) (db₀ db₀' : Database),
      onDisk disk 8 5 = .ok db₀ ∧ (db₀.openAll [o]).Ordinary ∧ onDisk disk 8 1 = .ok db₀' ∧
      (db₀'.openAll [o]).answers [.insert 0 row, .scan 0] =
        (db₀.openAll [o]).reference.answers [.insert 0 row, .scan 0] ∧
      (db₀.openAll [o]).reference.answers [.insert 0 row, .scan 0] =
        [.ok (.changed ⟨0, 1⟩ (row.movedTo (some ⟨⟨0, 1⟩, 0⟩))),
          .ok (.rows [row.movedTo (some ⟨⟨0, 0⟩, 0⟩), row.movedTo (some ⟨⟨0, 1⟩, 0⟩)])] := by
  let schema : Schema := ⟨[⟨"n", .int⟩]⟩
  let layout : Layout := ⟨schema, 8, 1, by decide, by decide, by decide, by decide⟩
  let row : Row := ⟨schema, [.int 7], none, rfl⟩
  let image : Bytes := [1, 7, 0, 0, 0, 0, 0, 0]
  let disk : Disk := ⟨(∅ : Std.TreeMap String File).insert "t" ⟨image, false, false⟩⟩
  let o : Opening := ⟨"t", "t", schema⟩
  let db₀ : Database := ⟨disk, #[], .empty 8, ⟨Lru.empty 5, [], 0⟩⟩
  have hlayout : Layout.make schema 8 = .ok layout := by cbv
  have hcreate : disk.create "t" = .ok ("t", disk) := by cbv
  have hopened : db₀.opened o = .ok (db₀.withTable "t" layout "t" disk) := by
    have hname : ¬ db₀.catalog.ids.contains "t" = true := by simp [db₀, Catalog.empty]
    have hsize : db₀.catalog.pageSize = 8 := rfl
    simp only [opened, o, if_neg hname, hsize, hlayout]
    rw [hcreate]
  have hopen : db₀.openAll [o] = db₀.withTable "t" layout "t" disk := by
    rw [openAll_cons, hopened]
    rfl
  have hord : (db₀.openAll [o]).Ordinary := by
    rw [hopen]
    refine ordinary_withTable rfl rfl rfl fun number hnumber => ?_
    have hcount : disk.size "t" / 8 = 1 := by cbv
    obtain rfl : number = 0 := Nat.lt_one_iff.mp (hcount ▸ hnumber)
    exact ⟨image, _, rfl, by cbv⟩
  have h₀ : onDisk disk 8 5 = .ok db₀ := rfl
  obtain ⟨db₀', h₀', hanswers⟩ :=
    answers_eq_reference h₀ [o] hord [.insert 0 row, .scan 0] 1 Nat.one_pos
  exact ⟨disk, o, row, db₀, db₀', h₀, hord, h₀', hanswers, by rw [hopen]; cbv⟩

end Database
end RowStore
