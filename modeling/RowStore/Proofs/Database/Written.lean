/-
# What has been written to a table

A table has a file of its own, which ends just behind the last page (`Origin`).  The pages that are
written to it stand in the journal, in their order, whatever else is done with the database in
between.

The file holds what the journal says (`Origin.Holds`): the page of a number is the last one of it in
the journal, or the one that was there at first, or else it is empty.  There is one lemma for each
kind of change: a page is written to any place (`Holds.written`) or written back
(`Holds.writtenBack`), a page is appended (`Holds.appended`) or cut off (`Holds.shrunk`), and what
happens elsewhere does not matter (`Holds.untouched`).

A page is appended for a row and may have to be cut off again.  It must not be written before it is
known to stay, so the pages that may be written end at a `limit` of their own.
-/
import RowStore.Proofs.Database.Parts
import RowStore.Proofs.Database.WholeFiles

namespace RowStore

/-! ## 1. Lists of pages -/

/-- The last page of the list that has the number. -/
def Page.lastOf? (log : List Page) (number : Nat) : Option Page :=
  log.reverse.find? fun page => page.id.number == number

namespace Page

variable {log : List Page} {number : Nat}

theorem lastOf?_nil (number : Nat) : lastOf? [] number = none := rfl

theorem lastOf?_append (log : List Page) (page : Page) (number : Nat) :
    lastOf? (log ++ [page]) number =
      if page.id.number = number then some page else lastOf? log number := by
  rw [lastOf?, List.reverse_append]
  by_cases h : page.id.number = number
  · simp [h]
  · simp [h, lastOf?]

theorem mem_of_lastOf? {page : Page} (h : lastOf? log number = some page) :
    page ∈ log ∧ page.id.number = number := by
  have hnumber := List.find?_some h
  rw [beq_iff_eq] at hnumber
  exact ⟨List.mem_reverse.mp (List.mem_of_find?_eq_some h), hnumber⟩

theorem lastOf?_eq_none (h : ∀ page ∈ log, page.id.number ≠ number) :
    lastOf? log number = none := by
  refine List.find?_eq_none.mpr fun page hpage => ?_
  rw [beq_iff_eq]
  exact h page (List.mem_reverse.mp hpage)

end Page

/-- A change to the entry of a file that is one of its counts. -/
structure TableFile.Recounts (change : TableFile → TableFile) (recount : Nat → Nat) : Prop where
  id : ∀ f, (change f).id = f.id
  path : ∀ f, (change f).path = f.path
  layout : ∀ f, (change f).layout = f.layout
  count : ∀ f, (change f).pageCount = recount f.pageCount

namespace TableFile

theorem recounts_afterRead : Recounts afterRead fun n => n :=
  ⟨fun _ => rfl, fun _ => rfl, fun _ => rfl, fun _ => rfl⟩

theorem recounts_afterWrite (number : Nat) :
    Recounts (afterWrite number) fun n => max n (number + 1) :=
  ⟨fun _ => rfl, fun _ => rfl, fun _ => rfl, fun _ => rfl⟩

theorem recounts_afterCut (number : Nat) : Recounts (afterCut number) fun _ => number :=
  ⟨fun _ => rfl, fun _ => rfl, fun _ => rfl, fun _ => rfl⟩

end TableFile

/-! ## 2. A table and its changes -/

/-- A table of a database, with a file of its own that ends just behind the last page. -/
structure Origin where
  db : Database
  table : TableId
  ref : TableRef
  extent : Extent
  typed : db.Typed
  ref_eq : db.ref? table = some ref
  extent_eq : db.extent? table = some extent
  /-- No other table has the file. -/
  alone : ∀ id y, db.extent? id = some y → y.path = extent.path → id = table
  whole : db.disk.Whole extent.path extent.layout.pageSize extent.count

namespace Origin

/-- The extent of the table and what is in its file are as they were, whatever else has changed. -/
structure Untouched (o : Origin) (db db' : Database) : Prop where
  extent : db'.extent? o.table = db.extent? o.table
  shown : db'.disk.shown? o.extent.path = db.disk.shown? o.extent.path

/-- The bytes that the page of the number had at first, or zeros if there was none. -/
def firstImage (o : Origin) (number : Nat) : Bytes :=
  (o.extent.read o.db.disk number).toOption.getD (Page.zeroImage o.extent.layout.pageSize)

/-- The bytes of a page when the pages of the list have been written. -/
def imageAt (o : Origin) (log : List Page) (number : Nat) : Bytes :=
  match Page.lastOf? log number with
  | some page => page.encode
  | none => o.firstImage number

/-- No other table has the file of the table. -/
def Alone (o : Origin) (db : Database) : Prop :=
  ∀ id y, db.extent? id = some y → y.path = o.extent.path → id = o.table

/-- Of the table, only pages below `count` are cached, and those that have changed are below
`limit`. -/
def CachedWithin (o : Origin) (limit count : Nat) (pool : Pool) : Prop :=
  ∀ id frame, pool.cache.peek? id = some frame → id.table = o.table →
    id.number < count ∧ (frame.page.dirty = true → id.number < limit)

/-- The table has `count` pages, which its file holds as the journal says.  Below `limit` there are
all that have been written, and all that were there at first. -/
structure Holds (o : Origin) (limit count : Nat) (journal : Journal) (db : Database) : Prop where
  stays : o.db.Stays db
  alone : o.Alone db
  extent : db.extent? o.table = some { o.extent with count }
  whole : db.disk.Whole o.extent.path o.extent.layout.pageSize count
  cached : o.CachedWithin limit count db.pool
  logged : ∀ page ∈ journal.pagesOf o.table,
    page.Valid ∧ page.layout = o.extent.layout ∧ page.id.number < limit
  first : o.extent.count ≤ limit
  limit_le : limit ≤ count
  reads : ∀ number < count,
    o.extent.read db.disk number = .ok (o.imageAt (journal.pagesOf o.table) number)

theorem pageSize_pos (o : Origin) : 0 < o.extent.layout.pageSize := o.extent.layout.pageSize_pos

/-- A page that is written takes the place of those of its number. -/
theorem imageAt_append (o : Origin) (log : List Page) (page : Page) (number : Nat) :
    o.imageAt (log ++ [page]) number =
      if page.id.number = number then page.encode else o.imageAt log number := by
  rw [imageAt, Page.lastOf?_append]
  by_cases h : page.id.number = number
  · rw [if_pos h, if_pos h]
  · rw [if_neg h, if_neg h, imageAt]

/-- Behind the last page there was nothing at first. -/
theorem read_behind (o : Origin) {number : Nat} (h : o.extent.count ≤ number) :
    o.extent.read o.db.disk number = .error .unexpectedEof :=
  o.whole.read_behind o.pageSize_pos h

theorem firstImage_behind (o : Origin) {number : Nat} (h : o.extent.count ≤ number) :
    o.firstImage number = Page.zeroImage o.extent.layout.pageSize := by
  rw [firstImage, o.read_behind h]
  rfl

variable {o : Origin} {db db' : Database} {limit count : Nat} {journal : Journal}

/-- An entry that changes stays where it is. -/
theorem Alone.modifyTable (h : o.Alone db) (hreg : db.Registered) (id : TableId)
    {change : TableFile → TableFile} {recount : Nat → Nat}
    (hc : TableFile.Recounts change recount) :
    o.Alone (db.modifyTable id change) := by
  intro id' y hy hown
  rw [Database.extent?_modifyTable hreg id change recount hc.path hc.layout hc.count] at hy
  split at hy
  · rename_i hsame
    rw [Option.map_eq_some_iff] at hy
    obtain ⟨x, hx, rfl⟩ := hy
    rw [hsame]
    exact h id x hx hown
  · exact h id' y hy hown

namespace Holds

theorem registered (h : o.Holds limit count journal db) : db.Registered := h.stays.typed.registered

theorem ref_eq (h : o.Holds limit count journal db) : db.ref? o.table = some o.ref :=
  (h.stays.same.ref?_eq o.table).trans o.ref_eq

/-- To start with, the file holds what it holds. -/
theorem start (o : Origin) (hempty : ∀ id, o.db.pool.cache.peek? id = none) :
    o.Holds o.extent.count o.extent.count [] o.db where
  stays := ⟨.refl _, o.typed⟩
  alone := o.alone
  extent := o.extent_eq
  whole := o.whole
  cached := fun id _ hframe => absurd ((hempty id).symm.trans hframe) (by simp)
  logged := by simp
  first := Nat.le_refl _
  limit_le := Nat.le_refl _
  reads := by
    intro number hnumber
    obtain ⟨image, hread, -⟩ := o.whole.read hnumber
    have hread' : o.extent.read o.db.disk number = .ok image := hread
    rw [Journal.pagesOf_nil, imageAt, Page.lastOf?_nil, firstImage, hread']
    rfl

/-- A page that has not been written and was not there at first is empty. -/
theorem imageAt_behind (h : o.Holds limit count journal db) {number : Nat}
    (hnumber : limit ≤ number) :
    o.imageAt (journal.pagesOf o.table) number = Page.zeroImage o.extent.layout.pageSize := by
  have hnone : Page.lastOf? (journal.pagesOf o.table) number = none := by
    refine Page.lastOf?_eq_none fun page hpage => ?_
    have hlt := (h.logged page hpage).2.2
    omega
  rw [imageAt, hnone]
  exact o.firstImage_behind (Nat.le_trans h.first hnumber)

/-- Pages may be written up to the last one. -/
theorem relax (h : o.Holds limit count journal db) : o.Holds count count journal db :=
  { h with
    cached := fun id frame hframe hid =>
      have hlt := (h.cached id frame hframe hid).1
      ⟨hlt, fun _ => hlt⟩
    logged := fun page hpage =>
      have hold := h.logged page hpage
      ⟨hold.1, hold.2.1, Nat.lt_of_lt_of_le hold.2.2 h.limit_le⟩
    first := Nat.le_trans h.first h.limit_le
    limit_le := Nat.le_refl _ }

/-- What touches neither the table nor its file keeps what is known of them. -/
theorem untouched (h : o.Holds limit count journal db) (hrest : o.Untouched db db')
    (hstays : o.db.Stays db') (halone : o.Alone db')
    (hcached : o.CachedWithin limit count db'.pool) : o.Holds limit count journal db' where
  stays := hstays
  alone := halone
  extent := hrest.extent.trans h.extent
  whole := h.whole.congr hrest.shown
  cached := hcached
  logged := h.logged
  first := h.first
  limit_le := h.limit_le
  reads number hnumber :=
    (Disk.read_of_shown? hrest.shown _ _).trans (h.reads number hnumber)

/-- What is written to other tables does not matter. -/
theorem congr {journal' : Journal} (h : o.Holds limit count journal db)
    (hpages : journal'.pagesOf o.table = journal.pagesOf o.table) :
    o.Holds limit count journal' db :=
  { h with
    logged := hpages ▸ h.logged
    reads := hpages ▸ h.reads }

/-- Nor do changes that write no page to the table. -/
theorem entered (h : o.Holds limit count journal db) {entry : Journal.Entry}
    (hentry : entry.table = o.table → entry.change.page? = none) :
    o.Holds limit count (journal ++ [entry]) db := by
  refine h.congr ?_
  by_cases htable : entry.table = o.table
  · have hpages : Journal.pagesOf (journal ++ [⟨o.table, entry.change⟩]) o.table =
        journal.pagesOf o.table ++ entry.change.page?.toList := Journal.pagesOf_enter
    rw [hentry htable, Option.toList_none, List.append_nil] at hpages
    rw [← hpages, ← htable]
  · exact Journal.pagesOf_enter_of_ne htable

/-! ## 3. Changes elsewhere -/

theorem withPool (h : o.Holds limit count journal db) {pool : Pool}
    (hstays : o.db.Stays { db with pool }) (hcached : o.CachedWithin limit count pool) :
    o.Holds limit count journal { db with pool } :=
  h.untouched ⟨rfl, rfl⟩ hstays h.alone hcached

/-- Another file changes, or what cannot be read of this one. -/
theorem withDisk (h : o.Holds limit count journal db) {disk : Disk}
    (hshown : disk.shown? o.extent.path = db.disk.shown? o.extent.path) :
    o.Holds limit count journal { db with disk } :=
  h.untouched ⟨rfl, hshown⟩ (h.stays.withDisk disk) h.alone h.cached

/-- An entry changes in its counts only, and that of the table at most in that of its reads. -/
theorem modifyTable (h : o.Holds limit count journal db) (id : TableId)
    {change : TableFile → TableFile} {recount : Nat → Nat} (hc : TableFile.Recounts change recount)
    (hrest : o.Untouched db (db.modifyTable id change)) :
    o.Holds limit count journal (db.modifyTable id change) := by
  have halone := h.alone.modifyTable h.registered id hc
  exact h.untouched hrest (h.stays.modifyTable id hc.id hc.layout) halone h.cached

/-- The entry of another table changes. -/
theorem modifyOther (h : o.Holds limit count journal db) {id : TableId} (hne : id ≠ o.table)
    {change : TableFile → TableFile} {recount : Nat → Nat}
    (hc : TableFile.Recounts change recount) :
    o.Holds limit count journal (db.modifyTable id change) := by
  have htable : (db.modifyTable id change).table? o.table = db.table? o.table := by
    rw [Database.table?_modifyTable h.registered, if_neg (Ne.symm hne)]
  refine h.modifyTable id hc ⟨?_, rfl⟩
  rw [Database.extent?, Database.extent?, htable]

theorem counted (h : o.Holds limit count journal db) (id : TableId) :
    o.Holds limit count journal (db.counted id) :=
  h.modifyTable id TableFile.recounts_afterRead
    ⟨congrFun (Database.extent?_counted h.registered id) _, rfl⟩

section OtherTable

variable {id : TableId} {y : Extent} {number : Nat} {disk : Disk}

/-- What is done with the file of another table does not show in this one. -/
theorem shown_of_other (h : o.Holds limit count journal db) (hne : id ≠ o.table)
    (hy : db.extent? id = some y) {change : File → Except IoFault File}
    (hrun : db.disk.withFile y.path change = .ok disk) :
    disk.shown? o.extent.path = db.disk.shown? o.extent.path := by
  refine Disk.shown?_congr (Disk.file?_withFile hrun fun hpath => ?_)
  exact hne (h.alone id y hy hpath.symm)

theorem writtenOther (h : o.Holds limit count journal db) (hne : id ≠ o.table)
    (hy : db.extent? id = some y) {image : Bytes}
    (hwrite : y.write db.disk number image = .ok disk) :
    o.Holds limit count journal (db.written id number disk) := by
  have hmodified := h.modifyOther hne (TableFile.recounts_afterWrite number)
  exact hmodified.withDisk (h.shown_of_other hne hy hwrite)

theorem shrunkOther (h : o.Holds limit count journal db) (hne : id ≠ o.table)
    (hy : db.extent? id = some y) (hcut : y.cut db.disk number = .ok disk) :
    o.Holds limit count journal (db.shrunk id number disk) := by
  have hmodified := h.modifyOther hne (TableFile.recounts_afterCut number)
  exact hmodified.withDisk (h.shown_of_other hne hy hcut)

end OtherTable

/-! ## 4. Changes of the table -/

/-- **A page is put into the file**, at any place: it says what the journal says of it,
and those in a gap in front of it come to be there and are empty. -/
theorem grown (h : o.Holds limit count journal db) {number limit' : Nat} {journal' : Journal}
    {image : Bytes} {disk : Disk} (hwrite : o.extent.write db.disk number image = .ok disk)
    (himage : image.length = o.extent.layout.pageSize)
    (hat : o.imageAt (journal'.pagesOf o.table) number = image)
    (hrest : ∀ m, m ≠ number →
      o.imageAt (journal'.pagesOf o.table) m = o.imageAt (journal.pagesOf o.table) m)
    (hlogged : ∀ page ∈ journal'.pagesOf o.table,
      page.Valid ∧ page.layout = o.extent.layout ∧ page.id.number < limit')
    (hlimit : limit ≤ limit') (hle : limit' ≤ max count (number + 1)) :
    o.Holds limit' (max count (number + 1)) journal' (db.written o.table number disk) := by
  obtain ⟨hwhole, hback, hsame, hgap, -⟩ := h.whole.write o.pageSize_pos himage hwrite
  refine
    { stays := h.stays.written o.table number disk
      alone := h.alone.modifyTable h.registered o.table (TableFile.recounts_afterWrite number)
      extent := ?_
      whole := hwhole
      cached := ?_
      logged := hlogged
      first := Nat.le_trans h.first hlimit
      limit_le := hle
      reads := ?_ }
  · rw [Database.extent?_written h.registered, if_pos rfl, h.extent]
    rfl
  · intro id frame hframe hid
    obtain ⟨hcount, hdirty⟩ := h.cached id frame hframe hid
    exact ⟨by omega, fun hd => Nat.lt_of_lt_of_le (hdirty hd) hlimit⟩
  · intro m hm
    by_cases hnumber : m = number
    · rw [hnumber, hat]
      exact hback
    · rw [hrest m hnumber]
      rcases Nat.lt_or_ge m count with hlt | hge
      · exact (hsame m hnumber hlt).trans (h.reads m hlt)
      · -- in the gap nothing has been written yet, so the journal says zeros there
        rw [h.imageAt_behind (Nat.le_trans h.limit_le hge)]
        exact hgap m hge (by omega)

/-- **A page is written** to its place: it is the last one of its number then. -/
theorem written (h : o.Holds limit count journal db) {page : Page} (hvalid : page.Valid)
    (hlayout : page.layout = o.extent.layout) (hnumber : page.id.number < limit ∨ limit = count)
    {disk : Disk} (hwrite : o.extent.write db.disk page.id.number page.encode = .ok disk) :
    o.Holds (max limit (page.id.number + 1)) (max count (page.id.number + 1))
      (journal ++ [⟨o.table, .write page⟩]) (db.written o.table page.id.number disk) := by
  have himage : page.encode.length = o.extent.layout.pageSize := hlayout ▸ hvalid.length_encode
  have hle := h.limit_le
  have hpages : Journal.pagesOf (journal ++ [⟨o.table, .write page⟩]) o.table =
      journal.pagesOf o.table ++ [page] := Journal.pagesOf_enter
  refine h.grown hwrite himage ?_ ?_ ?_ (by omega) (by omega)
  · rw [hpages, o.imageAt_append, if_pos rfl]
  · intro m hm
    rw [hpages, o.imageAt_append, if_neg (Ne.symm hm)]
  · intro p hp
    rw [hpages] at hp
    rcases List.mem_append.mp hp with hold | hnew
    · obtain ⟨hv, hl, hlt⟩ := h.logged p hold
      exact ⟨hv, hl, by omega⟩
    · obtain rfl := List.mem_singleton.mp hnew
      exact ⟨hvalid, hlayout, by omega⟩

/-- **A page is appended**: it is empty, and may not be written yet. -/
theorem appended (h : o.Holds count count journal db) {disk : Disk}
    (hwrite : o.extent.write db.disk count (Page.zeroImage o.extent.layout.pageSize) = .ok disk) :
    o.Holds count (count + 1) journal (db.written o.table count disk) := by
  have hgrown := h.grown hwrite List.length_replicate (h.imageAt_behind (Nat.le_refl _))
    (fun _ _ => rfl) h.logged (Nat.le_refl _) (by omega)
  rwa [Nat.max_eq_right (Nat.le_succ _)] at hgrown

/-- **The last page is cut off**, if it has not been written and is not cached. -/
theorem shrunk (h : o.Holds limit (limit + 1) journal db)
    (habsent : db.pool.cache.peek? ⟨o.table, limit⟩ = none) :
    ∃ disk, o.extent.cut db.disk limit = .ok disk ∧
      o.Holds limit limit journal (db.shrunk o.table limit disk) := by
  obtain ⟨disk, hcut, hwhole, hsame, -⟩ := h.whole.cut (Nat.le_succ limit)
  refine ⟨disk, hcut,
    { stays := h.stays.shrunk o.table limit disk
      alone := h.alone.modifyTable h.registered o.table (TableFile.recounts_afterCut limit)
      extent := ?_
      whole := hwhole
      cached := ?_
      logged := h.logged
      first := h.first
      limit_le := Nat.le_refl _
      reads := ?_ }⟩
  · rw [Database.extent?_shrunk h.registered, if_pos rfl, h.extent]
    rfl
  · intro id frame hframe hid
    obtain ⟨hcount, hdirty⟩ := h.cached id frame hframe hid
    have hne : id.number ≠ limit := by
      intro hnumber
      have hlast : id = ⟨o.table, limit⟩ := by rw [← hid, ← hnumber]
      rw [hlast] at hframe
      exact absurd (habsent.symm.trans hframe) (by simp)
    exact ⟨by omega, hdirty⟩
  · intro m hm
    exact (hsame m hm).trans (h.reads m (by omega))

/-- A cached page is written to its place, below the limit. -/
theorem writtenBack (h : o.Holds limit count journal db) {id : PageId} (hid : id.table = o.table)
    {frame : Frame} (hframe : db.pool.cache.peek? id = some frame)
    (hdirty : frame.page.dirty = true)
    {x : Extent} (hx : db.extent? id.table = some x) {disk : Disk}
    (hwrite : x.write db.disk id.number frame.page.encode = .ok disk) :
    o.Holds limit count (journal ++ [⟨id.table, .write frame.page⟩])
      (db.written id.table id.number disk) := by
  have hsuits := h.stays.typed.cached id frame hframe
  obtain rfl : { o.extent with count } = x := by
    rw [hid] at hx
    exact Option.some.inj (h.extent.symm.trans hx)
  have hlayout : frame.page.layout = o.extent.layout := by
    have hown := Database.layout?_of_extent hx
    exact Option.some.inj (hsuits.layout.symm.trans hown)
  have hnumber : frame.page.id.number < limit := by
    rw [hsuits.id_eq]
    exact (h.cached id frame hframe hid).2 hdirty
  have hwrite' : o.extent.write db.disk frame.page.id.number frame.page.encode = .ok disk := by
    rw [hsuits.id_eq]
    exact hwrite
  have hwritten := h.written hsuits.valid hlayout (Or.inl hnumber) hwrite'
  have hle := h.limit_le
  rw [Nat.max_eq_left (by omega), Nat.max_eq_left (by omega), hsuits.id_eq] at hwritten
  rwa [hid]

end Holds

end Origin
end RowStore
