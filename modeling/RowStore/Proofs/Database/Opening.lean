/-
# Opening tables

`openTable` either fails and changes nothing, or opens a file and enters the table
(`openTable_run`).  What it does depends on the disk and the catalog and not on the pool, and
neither does what it leaves (`openAll_withPool`).

`Opened` is what every sequence of openings leads to: the tables of the catalog have files that
exist, each has as many pages as its file holds whole, and no page is cached yet.
-/
import RowStore.Proofs.Database.Files
import RowStore.Database.Catalog

namespace RowStore

theorem Layout.pageSize_pos (layout : Layout) : 0 < layout.pageSize := by
  have hslots := layout.slots_pos
  rw [layout.slots_eq, slotsFor] at hslots
  have := Nat.pos_of_div_pos hslots
  omega

theorem Layout.pageSize_make {schema : Schema} {pageSize : Nat} {layout : Layout}
    (h : Layout.make schema pageSize = .ok layout) : layout.pageSize = pageSize := by
  simp only [Layout.make] at h
  split at h
  · cases h
  · split at h
    · cases h
    · split at h
      · cases h
      · cases h
        rfl

namespace Disk

theorem holds_eq (d : Disk) (place : Place) : d.holds place = (d.file? place.path).isSome :=
  Std.TreeMap.contains_eq_isSome_getElem?

/-- A file is created only where there was none, and stands there then. -/
theorem create_cases {d d' : Disk} {path place : String} (h : d.create path = .ok (place, d')) :
    (∃ f, d'.file? place = some f) ∧ ∀ p f, d.file? p = some f → d'.file? p = some f := by
  unfold create at h
  split at h
  · cases h
  · split at h
    · cases h
    · split at h
      · rename_i hthere
        cases h
        rw [holds_eq, Option.isSome_iff_exists] at hthere
        exact ⟨hthere, fun _ _ hf => hf⟩
      · rename_i hthere
        split at h
        · cases h
        · cases h
          refine ⟨⟨_, by rw [file?_insert, if_pos rfl]⟩, fun p f hf => ?_⟩
          rw [file?_insert, if_neg, hf]
          rintro rfl
          rw [holds_eq, hf] at hthere
          exact hthere rfl

end Disk

/-! ## 1. One table -/

structure Opening where
  name : String
  path : String
  schema : Schema

namespace Database

/-- The database with a table more, in the file at `place` of the disk. -/
def withTable (db : Database) (name : String) (layout : Layout) (place : String) (disk : Disk) :
    Database where
  disk := disk
  files := db.files.push
    ⟨db.catalog.nextId, place, layout, disk.size place / db.catalog.pageSize, 0, 0⟩
  catalog := { db.catalog with
    tables := db.catalog.tables.insert db.catalog.nextId ⟨name, ⟨db.files.size⟩⟩
    ids := db.catalog.ids.insert name db.catalog.nextId
    nextId := db.catalog.nextId + 1 }
  pool := db.pool

/-- What opening a table comes to. -/
def opened (db : Database) (o : Opening) : Except Error Database :=
  if db.catalog.ids.contains o.name then .error (.nameTaken o.name)
  else match Layout.make o.schema db.catalog.pageSize with
    | .error e => .error e
    | .ok layout => match db.disk.create o.path with
      | .error fault => .error (.io fault)
      | .ok (place, disk) => .ok (db.withTable o.name layout place disk)

/-- **A table is opened, or nothing changes.** -/
theorem openTable_run (db : Database) (o : Opening) :
    (openTable o.name o.path o.schema).run db =
      match db.opened o with
      | .ok db' => .ok ⟨db.files.size⟩ db'
      | .error e => .error e db := by
  unfold opened
  by_cases hname : db.catalog.ids.contains o.name = true
  · simp only [openTable, EStateM.run_bind, EStateM.run_get, hname, if_true]
    rfl
  · simp only [openTable, openFile, EStateM.run_bind, EStateM.run_get, hname, Bool.false_eq_true,
      if_false]
    cases hlayout : Layout.make o.schema db.catalog.pageSize with
    | error e => rfl
    | ok layout =>
      cases hcreate : db.disk.create o.path with
      | error fault =>
        simp only [attempt, EStateM.run_pure, hcreate, attemptIo]
        rfl
      | ok result =>
        simp only [attempt, EStateM.run_pure, hcreate, attemptIo, EStateM.run_set,
          EStateM.run_modify]
        rfl

/-! ## 2. Many tables -/

/-- The database behind openings, whether they succeed or fail. -/
def openAll (db : Database) : List Opening → Database
  | [] => db
  | o :: openings =>
    match (openTable o.name o.path o.schema).run db with
    | .ok _ db => db.openAll openings
    | .error _ db => db.openAll openings

theorem openAll_cons (db : Database) (o : Opening) (openings : List Opening) :
    db.openAll (o :: openings) = ((db.opened o).toOption.getD db).openAll openings := by
  rw [openAll, openTable_run]
  cases db.opened o <;> rfl

theorem opened_withPool (db : Database) (o : Opening) (pool : Pool) :
    ({ db with pool } : Database).opened o =
      (db.opened o).map fun db' => { db' with pool } := by
  unfold opened
  split
  · rfl
  · cases Layout.make o.schema db.catalog.pageSize with
    | error e => rfl
    | ok layout => cases db.disk.create o.path <;> rfl

/-- Openings do the same with any pool. -/
theorem openAll_withPool (db : Database) (openings : List Opening) (pool : Pool) :
    ({ db with pool } : Database).openAll openings = { db.openAll openings with pool } := by
  induction openings generalizing db with
  | nil => rfl
  | cons o openings ih =>
    rw [openAll_cons, openAll_cons, opened_withPool, ← ih]
    cases db.opened o <;> rfl

/-! ## 3. What openings lead to -/

/-- The file of a table of the catalog. -/
def table? (db : Database) (id : TableId) : Option TableFile :=
  db.catalog.tables[id]?.bind fun entry => db.files[entry.file.index]?

/-- Every table of the catalog has a file with its number, which exists and whose whole pages are
the pages of the table. -/
def Opened (db : Database) : Prop :=
  ∀ (id : TableId) (entry : Catalog.Entry), db.catalog.tables[id]? = some entry →
    ∃ (f : TableFile) (file : File), db.files[entry.file.index]? = some f ∧ f.id = id ∧
      db.disk.file? f.path = some file ∧
      f.pageCount = file.bytes.length / f.layout.pageSize

theorem opened_withTable {db : Database} (h : db.Opened) {name path place : String}
    {layout : Layout} {disk : Disk} (hlayout : layout.pageSize = db.catalog.pageSize)
    (hcreate : db.disk.create path = .ok (place, disk)) :
    (db.withTable name layout place disk).Opened := by
  obtain ⟨⟨file, hfile⟩, hstays⟩ := Disk.create_cases hcreate
  intro id entry hentry
  simp only [withTable, Std.TreeMap.getElem?_insert] at hentry ⊢
  split at hentry
  · rename_i hid
    obtain rfl : db.catalog.nextId = id := Std.LawfulEqOrd.eq_of_compare hid
    cases hentry
    refine ⟨_, file, Array.getElem?_push_size, rfl, hfile, ?_⟩
    simp only [Disk.size, hfile, hlayout, Option.map_some, Option.getD_some]
  · obtain ⟨f, file', hf, hid, hfile', hcount⟩ := h id entry hentry
    refine ⟨f, file', ?_, hid, hstays _ _ hfile', hcount⟩
    have hlt := (Array.getElem?_eq_some_iff.mp hf).1
    rw [Array.getElem?_push, if_neg (Nat.ne_of_lt hlt), hf]

theorem Opened.openAll {db : Database} (h : db.Opened) (openings : List Opening) :
    (db.openAll openings).Opened := by
  induction openings generalizing db with
  | nil => exact h
  | cons o openings ih =>
    rw [openAll_cons]
    refine ih ?_
    cases ho : db.opened o with
    | error e => exact h
    | ok db' =>
      unfold opened at ho
      split at ho
      · cases ho
      · split at ho
        · cases ho
        · rename_i layout hlayout
          split at ho
          · cases ho
          · rename_i place disk hcreate
            cases ho
            exact opened_withTable h (Layout.pageSize_make hlayout) hcreate

end Database
end RowStore
