/-
# Where the pages of a table are

The files of tables need not take writes, and their pages need not decode.  All that is asked of
one here is that it carries as many whole pages as its table counts, and that it ends where its
bytes end unless it refuses every write, as devices do (`Disk.Carries`).  Then a write that
succeeds puts a page in its place and changes no other (`Disk.Carries.write`), and cutting the last
page off leaves those in front of it (`Disk.Carries.cut`).

An extent says where the pages of a table are: in which file, how they are laid out, and how many.
Every page has two or three copies, and these are the words for them: its bytes on the disk
(`image?`), the page that they decode to (`stored?`), and what the page says, which the cache
decides if it has the page and the disk otherwise (`content?`).
-/
import RowStore.Proofs.Database.Files
import RowStore.Proofs.Database.Opening
import RowStore.Proofs.Database.Sheets
import RowStore.Proofs.Lru.Lookup
import RowStore.Database.PageIo

namespace RowStore

/-! ## 1. Files that carry pages -/

namespace Disk

/-- The file reads on behind its last byte. -/
def Endless (d : Disk) (path : String) : Prop := ∃ f, d.file? path = some f ∧ f.endless = true

/-- The file has `count` whole pages of `size` bytes, and if it reads on behind them then it takes
no writes. -/
def Carries (d : Disk) (path : String) (size count : Nat) : Prop :=
  ∃ f, d.file? path = some f ∧ (f.endless = true → f.full = true) ∧
    count * size ≤ f.bytes.length ∧ f.bytes.length < (count + 1) * size

/-- What files say is the same for the same files. -/
theorem read_congr {d d' : Disk} {path : String} (h : d'.file? path = d.file? path)
    (offset count : Nat) : d'.read path offset count = d.read path offset count := by
  rw [read, read, h]

/-- A write that succeeds was to a file with room, and changes the bytes of that file only. -/
theorem exists_of_write {d d' : Disk} {path : String} {offset : Nat} {data : Bytes}
    (hdata : data ≠ []) (h : d.write path offset data = .ok d') :
    ∃ f, d.file? path = some f ∧ f.full = false ∧
      d' = ⟨d.files.insert path { f with bytes := File.overwritten f.bytes offset data }⟩ := by
  unfold write withFile at h
  cases hf : d.file? path with
  | none => simp [hf] at h
  | some f =>
    have hne : ¬ data.isEmpty = true := by rwa [List.isEmpty_iff]
    cases hfull : f.full with
    | true => simp [hf, File.write, hne, hfull, Except.map] at h
    | false =>
      rw [hf] at h
      simp only [f.write_eq offset hfull hdata, Except.map, Except.ok.injEq] at h
      exact ⟨f, rfl, hfull, h.symm⟩

/-- A file that is cut has an end, and nothing changes but its bytes. -/
theorem exists_of_resize {d d' : Disk} {path : String} {length : Nat}
    (h : d.resize path length = .ok d') :
    ∃ f, d.file? path = some f ∧ f.endless = false ∧
      d' = ⟨d.files.insert path { f with bytes := File.fitted f.bytes length }⟩ := by
  unfold resize withFile at h
  cases hf : d.file? path with
  | none => simp [hf] at h
  | some f =>
    cases hend : f.endless with
    | true => simp [hf, File.resize, hend, Except.map] at h
    | false =>
      rw [hf] at h
      have hcut : f.resize length = .ok { f with bytes := File.fitted f.bytes length } := by
        rw [File.resize, if_neg (by rw [hend]; exact Bool.false_ne_true)]
      simp only [hcut, Except.map, Except.ok.injEq] at h
      exact ⟨f, rfl, hend, h.symm⟩

/-- The bytes of a file do not settle whether it has an end. -/
theorem endless_insert {d : Disk} {path : String} {f f' : File} (hf : d.file? path = some f)
    (h : f'.endless = f.endless) (p : String) :
    (⟨d.files.insert path f'⟩ : Disk).Endless p ↔ d.Endless p := by
  unfold Endless
  rw [file?_insert]
  by_cases hp : p = path
  · rw [if_pos hp, hp, hf]
    simp [h]
  · rw [if_neg hp]

namespace Carries

variable {d d' : Disk} {path : String} {size count : Nat}

theorem congr (h : d.Carries path size count) (hfile : d'.file? path = d.file? path) :
    d'.Carries path size count := by
  unfold Carries
  rw [hfile]
  exact h

theorem size_pos (h : d.Carries path size count) : 0 < size := by
  obtain ⟨f, -, -, hle, hlt⟩ := h
  rw [Nat.succ_mul] at hlt
  omega

/-- A file that takes writes is an ordinary one. -/
theorem pageFile (h : d.Carries path size count) {f : File} (hf : d.file? path = some f)
    (hfull : f.full = false) : d.PageFile path size count := by
  obtain ⟨g, hg, hdevice, hle, hlt⟩ := h
  obtain rfl : f = g := Option.some.inj (hf.symm.trans hg)
  refine ⟨f, hf, hfull, ?_, hle, hlt⟩
  cases hend : f.endless with
  | false => rfl
  | true => exact absurd (hdevice hend) (by rw [hfull]; exact Bool.false_ne_true)

/-- There are just so many pages in the file. -/
theorem count_eq (h : d.Carries path size count) : d.size path / size = count := by
  obtain ⟨f, hf, -, hle, hlt⟩ := h
  have hsize : d.size path = f.bytes.length := by rw [Disk.size, hf]; rfl
  rw [hsize]
  exact Nat.div_eq_of_lt_le hle hlt

/-- A page behind the others can be read only where the file does not end. -/
theorem lt_or_endless (h : d.Carries path size count) {n : Nat} {image : Bytes}
    (hread : d.read path (n * size) size = .ok image) : n < count ∨ d.Endless path := by
  have hsize := h.size_pos
  obtain ⟨f, hf, -, -, hlt⟩ := h
  by_cases hn : n < count
  · exact Or.inl hn
  · cases hend : f.endless with
    | true => exact Or.inr ⟨f, hf, hend⟩
    | false =>
      have hle := Nat.mul_le_mul_right size (Nat.le_of_not_lt hn)
      rw [Nat.succ_mul] at hlt
      rw [read_of_file? hf, f.read_behind hend hsize (by omega)] at hread
      cases hread

/-- A file that took a write ends where its bytes end. -/
theorem not_endless (h : d.Carries path size count) {offset : Nat} {image : Bytes}
    (himage : image.length = size) (hw : d.write path offset image = .ok d') :
    ¬ d.Endless path := by
  have hne : image ≠ [] := by
    rintro rfl
    exact Nat.ne_of_lt h.size_pos himage
  obtain ⟨f, hf, hfull, -⟩ := exists_of_write hne hw
  obtain ⟨g, hg, hdevice, -⟩ := h
  obtain rfl : f = g := Option.some.inj (hf.symm.trans hg)
  rintro ⟨g, hg', hyes⟩
  obtain rfl : f = g := Option.some.inj (hf.symm.trans hg')
  exact Bool.false_ne_true (hfull.symm.trans (hdevice hyes))

/-- **A page that could be written** stands in its place; no other page has changed, and no other
file. -/
theorem write (h : d.Carries path size count) {n : Nat} (hn : n ≤ count) {image : Bytes}
    (himage : image.length = size) (hw : d.write path (n * size) image = .ok d') :
    d'.Carries path size (max count (n + 1)) ∧ d'.read path (n * size) size = .ok image ∧
      (∀ m, m ≠ n → d'.read path (m * size) size = d.read path (m * size) size) ∧
      (∀ p, p ≠ path → d'.file? p = d.file? p) ∧ ∀ p, d'.Endless p ↔ d.Endless p := by
  have hne : image ≠ [] := by
    rintro rfl
    exact Nat.ne_of_lt h.size_pos himage
  obtain ⟨f, hf, hfull, hd'⟩ := exists_of_write hne hw
  obtain ⟨d'', hw', hcount, hback, hrest, hother⟩ := (h.pageFile hf hfull).write hn himage
  obtain rfl : d' = d'' := by
    rw [hw, Except.ok.injEq] at hw'
    exact hw'
  refine ⟨?_, hback, hrest, hother, ?_⟩
  · obtain ⟨g, hg, -, hend, hle, hlt⟩ := hcount
    exact ⟨g, hg, fun hyes => absurd (hend.symm.trans hyes) Bool.false_ne_true, hle, hlt⟩
  · rw [hd']
    exact endless_insert hf rfl

/-- **The last page has been cut off**: those in front of it read as before. -/
theorem cut {n : Nat} (h : d.Carries path size (n + 1)) (hcut : d.resize path (n * size) = .ok d') :
    d'.Carries path size n ∧ ¬ d.Endless path ∧
      (∀ m, m < n → d'.read path (m * size) size = d.read path (m * size) size) ∧
      (∀ p, p ≠ path → d'.file? p = d.file? p) ∧ ∀ p, d'.Endless p ↔ d.Endless p := by
  have hsize := h.size_pos
  obtain ⟨f, hf, hend, rfl⟩ := exists_of_resize hcut
  obtain ⟨g, hg, hdevice, hle, -⟩ := h
  obtain rfl : f = g := Option.some.inj (hf.symm.trans hg)
  have hfile := file?_insert d path path { f with bytes := File.fitted f.bytes (n * size) }
  rw [if_pos rfl] at hfile
  have hlen := File.length_fitted f.bytes (n * size)
  refine ⟨⟨_, hfile, hdevice, ?_, ?_⟩, ?_, fun m hm => ?_, fun p hp => ?_, endless_insert hf rfl⟩
  · exact Nat.le_of_eq hlen.symm
  · rw [Nat.succ_mul]
    exact hlen.trans_lt (by omega)
  · rintro ⟨g, hg', hyes⟩
    obtain rfl : f = g := Option.some.inj (hf.symm.trans hg')
    exact Bool.false_ne_true (hend.symm.trans hyes)
  · have hmle := Nat.mul_le_mul_right size hm
    rw [Nat.succ_mul] at hmle hle
    rw [read_of_file? hfile, read_of_file? hf, File.read_eq _ (by simp only [hlen]; omega),
      File.read_eq _ (by omega)]
    refine congrArg Except.ok (List.ext_getElem? fun i => ?_)
    simp only [File.getElem?_slice, File.getElem?_fitted]
    by_cases hi : i < size
    · rw [if_pos hi, if_pos hi, if_pos (by omega), List.getElem?_eq_getElem (by omega),
        Option.getD_some]
    · rw [if_neg hi, if_neg hi]
  · rw [file?_insert, if_neg hp]

/-- A file that ends can be cut. -/
theorem exists_cut (h : d.Carries path size count) (hend : ¬ d.Endless path) (length : Nat) :
    ∃ d', d.resize path length = .ok d' := by
  obtain ⟨f, hf, -⟩ := h
  have hno : ¬ f.endless = true := fun hyes => hend ⟨f, hf, hyes⟩
  simp only [resize, withFile, hf, File.resize, if_neg hno, Except.map]
  exact ⟨_, rfl⟩

end Carries

end Disk

/-! ## 2. Extents -/

/-- Where the pages of a table are. -/
structure Extent where
  path : String
  layout : Layout
  count : Nat

namespace Extent

/-- The bytes of a page of the table. -/
def read (x : Extent) (disk : Disk) (number : Nat) : Except IoFault Bytes :=
  disk.read x.path (number * x.layout.pageSize) x.layout.pageSize

/-- A page is written to its place in the table. -/
def write (x : Extent) (disk : Disk) (number : Nat) (image : Bytes) : Except IoFault Disk :=
  disk.write x.path (number * x.layout.pageSize) image

/-- The table is cut in front of a page. -/
def cut (x : Extent) (disk : Disk) (number : Nat) : Except IoFault Disk :=
  disk.resize x.path (number * x.layout.pageSize)

/-- The page may stand in the cache for the page of this number: it is in order, and there is such
a page, or else the file does not end. -/
structure Admits (x : Extent) (disk : Disk) (id : PageId) (page : Page) : Prop where
  valid : page.Valid
  id_eq : page.id = id
  layout_eq : page.layout = x.layout
  within : id.number < x.count ∨ disk.Endless x.path

end Extent

/-- What a page says: its bitmap, and the rows in its slots with their places. -/
structure Content where
  bitmap : Bitmap
  slots : Array (Option Row)
deriving DecidableEq

def Page.content (page : Page) : Content := ⟨page.bitmap, page.slots⟩

theorem eq_ok_of_toOption {ε α : Type} {x : Except ε α} {a : α} (h : x.toOption = some a) :
    x = .ok a := by
  cases x with
  | error e => cases h
  | ok b => exact congrArg Except.ok (Option.some.inj h)

namespace Database

def extent? (db : Database) (id : TableId) : Option Extent :=
  (db.table? id).map fun f => ⟨f.path, f.layout, f.pageCount⟩

theorem extent?_of_table {db : Database} {id : TableId} {f : TableFile}
    (hf : db.table? id = some f) : db.extent? id = some ⟨f.path, f.layout, f.pageCount⟩ := by
  rw [extent?, hf, Option.map_some]

theorem exists_table {db : Database} {id : TableId} {x : Extent} (hx : db.extent? id = some x) :
    ∃ f, db.table? id = some f ∧ ⟨f.path, f.layout, f.pageCount⟩ = x :=
  Option.map_eq_some_iff.mp hx

/-- How many pages a table has. -/
def pageCount? (db : Database) (id : TableId) : Option Nat := (db.table? id).map (·.pageCount)

theorem pageCount?_eq (db : Database) (id : TableId) :
    db.pageCount? id = (db.extent? id).map (·.count) := by
  rw [pageCount?, extent?, Option.map_map]
  rfl

theorem pageCount?_congr {db db' : Database} (h : db'.extent? = db.extent?) :
    db'.pageCount? = db.pageCount? := by
  funext id
  rw [pageCount?_eq, pageCount?_eq, h]

/-- The bytes that stand in the place of a page in its table's file. -/
def image? (db : Database) (id : PageId) : Option Bytes :=
  (db.extent? id.table).bind fun x => (x.read db.disk id.number).toOption

/-- The page that these bytes decode to. -/
def stored? (db : Database) (id : PageId) : Option Page :=
  (db.extent? id.table).bind fun x =>
    (db.image? id).bind fun image => (Page.decode id x.layout image).toOption

/-- What a page says: the cached page if it is cached, and otherwise the one on the disk. -/
def content? (db : Database) (id : PageId) : Option Content :=
  match db.pool.cache.peek? id with
  | some frame => some frame.page.content
  | none => (db.stored? id).map (·.content)

/-- There is a page on the disk if its bytes can be read and decoded. -/
theorem exists_of_stored? {db : Database} {id : PageId} {page : Page}
    (h : db.stored? id = some page) : ∃ x image, db.extent? id.table = some x ∧
      x.read db.disk id.number = .ok image ∧ Page.decode id x.layout image = .ok page := by
  rw [stored?, Option.bind_eq_some_iff] at h
  obtain ⟨x, hx, h⟩ := h
  rw [Option.bind_eq_some_iff, image?, hx, Option.bind_some] at h
  obtain ⟨image, himage, hpage⟩ := h
  exact ⟨x, image, hx, eq_ok_of_toOption himage, eq_ok_of_toOption hpage⟩

section Look

variable {db : Database} {id : PageId} {x : Extent}

theorem image?_eq (hx : db.extent? id.table = some x) :
    db.image? id = (x.read db.disk id.number).toOption := by
  rw [image?, hx, Option.bind_some]

theorem stored?_eq (hx : db.extent? id.table = some x) :
    db.stored? id = (db.image? id).bind fun image => (Page.decode id x.layout image).toOption := by
  rw [stored?, hx, Option.bind_some]

theorem image?_of_read (hx : db.extent? id.table = some x) {image : Bytes}
    (hread : x.read db.disk id.number = .ok image) : db.image? id = some image := by
  rw [image?_eq hx, hread]
  rfl

theorem stored?_of_decode (hx : db.extent? id.table = some x) {image : Bytes} {page : Page}
    (himage : db.image? id = some image) (hdecode : Page.decode id x.layout image = .ok page) :
    db.stored? id = some page := by
  rw [stored?_eq hx, himage, Option.bind_some, hdecode]
  rfl

theorem content?_of_cached {frame : Frame} (hframe : db.pool.cache.peek? id = some frame) :
    db.content? id = some frame.page.content := by
  rw [content?, hframe]

theorem content?_of_absent (habsent : db.pool.cache.peek? id = none) :
    db.content? id = (db.stored? id).map (·.content) := by
  rw [content?, habsent]

end Look

/-! ## 3. Changing the entry of a table -/

/-- The file by which the catalog knows a table. -/
def ref? (db : Database) (id : TableId) : Option TableRef :=
  db.catalog.tables[id]?.map (·.file)

/-- Every table of the catalog has a file with its number. -/
def Registered (db : Database) : Prop :=
  ∀ (id : TableId) (ref : TableRef), db.ref? id = some ref →
    ∃ f, db.files[ref.index]? = some f ∧ f.id = id

/-- The database with another entry for the file of a table. -/
def modifyTable (db : Database) (id : TableId) (change : TableFile → TableFile) : Database :=
  { db with files := match db.ref? id with
      | some ref => db.files.modify ref.index change
      | none => db.files }

theorem table?_of_ref {db : Database} {id : TableId} {ref : TableRef} (h : db.ref? id = some ref) :
    db.table? id = db.files[ref.index]? := by
  rw [ref?, Option.map_eq_some_iff] at h
  obtain ⟨entry, hentry, rfl⟩ := h
  rw [table?, hentry, Option.bind_some]

theorem table?_of_no_ref {db : Database} {id : TableId} (h : db.ref? id = none) :
    db.table? id = none := by
  rw [ref?, Option.map_eq_none_iff] at h
  rw [table?, h, Option.bind_none]

theorem exists_ref_of_table {db : Database} {id : TableId} {f : TableFile}
    (hf : db.table? id = some f) :
    ∃ ref, db.ref? id = some ref ∧ db.files[ref.index]? = some f := by
  rw [table?, Option.bind_eq_some_iff] at hf
  obtain ⟨entry, hentry, hfile⟩ := hf
  exact ⟨entry.file, by rw [ref?, hentry, Option.map_some], hfile⟩

theorem Registered.exists_ref {db : Database} {id : TableId} {x : Extent}
    (hx : db.extent? id = some x) : ∃ ref, db.ref? id = some ref := by
  obtain ⟨f, hf, -⟩ := exists_table hx
  obtain ⟨ref, href, -⟩ := exists_ref_of_table hf
  exact ⟨ref, href⟩

section ModifyTable

variable {db : Database} {id : TableId} {change : TableFile → TableFile}

/-- Only the entry of the one table changes, since no two tables share one. -/
theorem table?_modifyTable (h : db.Registered) (id' : TableId) :
    (db.modifyTable id change).table? id' =
      if id' = id then (db.table? id).map change else db.table? id' := by
  cases href' : db.ref? id' with
  | none =>
    have hleft : (db.modifyTable id change).table? id' = none := table?_of_no_ref href'
    rw [hleft, table?_of_no_ref href']
    split
    · rename_i hid
      rw [← hid, table?_of_no_ref href', Option.map_none]
    · rfl
  | some ref' =>
    have hleft : (db.modifyTable id change).table? id' =
        (db.modifyTable id change).files[ref'.index]? := table?_of_ref href'
    rw [hleft, table?_of_ref href']
    obtain ⟨f', hf', hid'⟩ := h _ _ href'
    by_cases hsame : id' = id
    · subst hsame
      rw [if_pos rfl, table?_of_ref href', modifyTable, href', Array.getElem?_modify, if_pos rfl]
    · rw [if_neg hsame, modifyTable]
      cases href : db.ref? id with
      | none => rfl
      | some ref =>
        obtain ⟨f, hf, hid⟩ := h _ _ href
        have hne : ¬ ref.index = ref'.index := by
          intro hindex
          rw [hindex, hf', Option.some.injEq] at hf
          exact hsame (by rw [← hid', ← hid, hf])
        simp only [Array.getElem?_modify, if_neg hne]

theorem Registered.modifyTable (h : db.Registered) (id : TableId) (change : TableFile → TableFile)
    (hchange : ∀ f, (change f).id = f.id) : (db.modifyTable id change).Registered := by
  intro id' ref' href'
  have href₀ : db.ref? id' = some ref' := href'
  have htable : (db.modifyTable id change).table? id' =
      (db.modifyTable id change).files[ref'.index]? := table?_of_ref href'
  obtain ⟨f, hf, hid⟩ := h _ _ href₀
  rw [← htable, table?_modifyTable h]
  rw [← table?_of_ref href₀] at hf
  by_cases hsame : id' = id
  · subst hsame
    rw [if_pos rfl, hf]
    exact ⟨change f, rfl, (hchange f).trans hid⟩
  · rw [if_neg hsame]
    exact ⟨f, hf, hid⟩

/-- A table whose entry changes in its counts only stays where it is. -/
theorem extent?_modifyTable (h : db.Registered) (id : TableId) (change : TableFile → TableFile)
    (recount : Nat → Nat) (hpath : ∀ f, (change f).path = f.path)
    (hlayout : ∀ f, (change f).layout = f.layout)
    (hcount : ∀ f, (change f).pageCount = recount f.pageCount) (id' : TableId) :
    (db.modifyTable id change).extent? id' =
      if id' = id then (db.extent? id).map fun x => { x with count := recount x.count }
      else db.extent? id' := by
  rw [extent?, table?_modifyTable h]
  split
  · rw [extent?, Option.map_map, Option.map_map]
    refine congrArg (Option.map · _) (funext fun f => ?_)
    simp only [Function.comp, hpath, hlayout, hcount]
  · rfl

end ModifyTable

end Database

/-! ## 4. The three ways in which an entry changes -/

namespace TableFile

/-- A page has been read. -/
def afterRead (f : TableFile) : TableFile := { f with reads := f.reads + 1 }

/-- A page has been written. -/
def afterWrite (number : Nat) (f : TableFile) : TableFile :=
  { f with pageCount := max f.pageCount (number + 1), writes := f.writes + 1 }

/-- The page and those behind it have been cut off. -/
def afterCut (number : Nat) (f : TableFile) : TableFile := { f with pageCount := number }

end TableFile

namespace Database

def counted (db : Database) (table : TableId) : Database := db.modifyTable table .afterRead

def written (db : Database) (table : TableId) (number : Nat) (disk : Disk) : Database :=
  { db.modifyTable table (.afterWrite number) with disk }

def shrunk (db : Database) (table : TableId) (number : Nat) (disk : Disk) : Database :=
  { db.modifyTable table (.afterCut number) with disk }

section Entries

variable {db : Database} {table : TableId} {number : Nat} {disk : Disk}

theorem Registered.counted (h : db.Registered) : (db.counted table).Registered :=
  h.modifyTable table .afterRead fun _ => rfl

theorem Registered.written (h : db.Registered) : (db.written table number disk).Registered :=
  h.modifyTable table (.afterWrite number) fun _ => rfl

theorem Registered.shrunk (h : db.Registered) : (db.shrunk table number disk).Registered :=
  h.modifyTable table (.afterCut number) fun _ => rfl

theorem extent?_counted (h : db.Registered) (table : TableId) :
    (db.counted table).extent? = db.extent? := by
  funext id
  rw [Database.counted, extent?_modifyTable h table .afterRead (fun n => n) (fun _ => rfl)
    (fun _ => rfl) fun _ => rfl]
  split
  · rename_i hid
    rw [hid]
    exact Option.map_id'
  · rfl

theorem extent?_written (h : db.Registered) (id : TableId) :
    (db.written table number disk).extent? id =
      if id = table then (db.extent? table).map fun x => { x with count := max x.count (number + 1) }
      else db.extent? id :=
  extent?_modifyTable h table (.afterWrite number) (fun n => max n (number + 1)) (fun _ => rfl)
    (fun _ => rfl) (fun _ => rfl) id

theorem extent?_shrunk (h : db.Registered) (id : TableId) :
    (db.shrunk table number disk).extent? id =
      if id = table then (db.extent? table).map fun x => { x with count := number }
      else db.extent? id :=
  extent?_modifyTable h table (.afterCut number) (fun _ => number) (fun _ => rfl) (fun _ => rfl)
    (fun _ => rfl) id

/-- How many pages of a table have been written. -/
def writes? (db : Database) (id : TableId) : Option Nat := (db.table? id).map (·.writes)

theorem writes?_counted (h : db.Registered) (table : TableId) :
    (db.counted table).writes? = db.writes? := by
  funext id
  rw [writes?, counted, table?_modifyTable h]
  split
  · rename_i hid
    rw [hid, Option.map_map]
    rfl
  · rfl

theorem writes?_written (h : db.Registered) (id : TableId) :
    (db.written table number disk).writes? id =
      (db.writes? id).map fun n => if id = table then n + 1 else n := by
  have htable : (db.written table number disk).table? id =
      if id = table then (db.table? table).map (.afterWrite number) else db.table? id :=
    table?_modifyTable h id
  rw [writes?, htable]
  split
  · rename_i hid
    rw [hid, writes?, Option.map_map, Option.map_map]
    rfl
  · rw [Option.map_id', writes?]

end Entries

end Database
end RowStore
