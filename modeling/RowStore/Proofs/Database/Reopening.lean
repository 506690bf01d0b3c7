/-
# Opening tables again

Tables are opened one after another (`openEach`), in files that are created if they are not there.
Later the files have other bytes, but they are there, and whatever happens to a database its tables
stay in them (`Session.stays_after`).  So a new database on the same disk can open the same tables
again: nothing is created then, the disk stays as it is, and every table gets the number and the
file that it had (`openEach_again`).

How many pages a table has is not written anywhere.  It is worked out from the length of the file,
and comes to what it was (`Alike.extent?_eq`).
-/
import RowStore.Proofs.Database.Sessions

namespace RowStore

/-! ## 1. Files that are there -/

namespace Disk

/-- Every file of the one disk is on the other, whatever its bytes. -/
def Within (d d' : Disk) : Prop := ∀ path, (d.file? path).isSome → (d'.file? path).isSome

namespace Within

variable {d d' : Disk}

theorem refl (d : Disk) : d.Within d := fun _ h => h

theorem trans {d'' : Disk} (h : d.Within d') (h' : d'.Within d'') : d.Within d'' :=
  fun path hpath => h' path (h path hpath)

theorem insert (d : Disk) (path : String) (f : File) : d.Within ⟨d.files.insert path f⟩ := by
  intro p hp
  rw [file?_insert]
  split
  · rfl
  · exact hp

/-- Work on a file does not take any away. -/
theorem of_withFile {path : String} {change : File → Except IoFault File}
    (h : d.withFile path change = .ok d') : d.Within d' := by
  unfold withFile at h
  split at h
  · cases h
  · rename_i f hf
    cases hchange : change f with
    | error fault =>
      rw [hchange] at h
      cases h
    | ok f' =>
      rw [hchange] at h
      cases h
      exact .insert d path f'

theorem withRoom (d : Disk) (path : String) (full : Bool) : d.Within (d.withRoom path full) := by
  intro p hp
  rw [file?_withRoom, Option.isSome_map]
  exact hp

theorem of_create {path place : String} (h : d.create path = .ok (place, d')) : d.Within d' := by
  intro p hp
  obtain ⟨f, hf⟩ := Option.isSome_iff_exists.mp hp
  rw [(create_cases h).2 p f hf]
  rfl

end Within

/-- Where a path leads to is settled by its names, if it leads anywhere. -/
theorem follow_ok {d : Disk} (d' : Disk) {here : Directory} {names : List String}
    {place : Option Place} (h : d.follow here names = .ok place) :
    d'.follow here names = .ok place := by
  induction names generalizing here with
  | nil => exact h
  | cons name names ih =>
    cases names with
    | nil => exact h
    | cons next names =>
      simp only [follow] at h ⊢
      cases hthere : here.enter? name with
      | none =>
        rw [hthere] at h
        cases h
      | some there =>
        rw [hthere] at h
        exact ih h

theorem locate_ok {d : Disk} (d' : Disk) {path : String} {place : Place}
    (h : d.locate path = .ok place) : d'.locate path = .ok place := by
  unfold locate at h ⊢
  split at h
  · cases h
  · rename_i hformed
    rw [if_neg hformed]
    cases hfollow : d.follow (Path.start path) (Path.names path) with
    | error fault =>
      rw [hfollow] at h
      cases h
    | ok found =>
      rw [hfollow] at h
      rw [follow_ok d' hfollow]
      exact h

/-- **A file that is there is found** by the path by which it was created. -/
theorem create_again {d d' d₁ : Disk} {path place : String} (h : d.create path = .ok (place, d₁))
    (hthere : (d'.file? place).isSome) : d'.create path = .ok (place, d') := by
  unfold create at h
  cases hlocate : d.locate path with
  | error fault =>
    rw [hlocate] at h
    cases h
  | ok found =>
    rw [hlocate] at h
    have hplace : ¬ Path.endsInSlash path = true ∧ found.path = place := by
      simp only at h
      split at h
      · cases h
      · rename_i hslash
        refine ⟨hslash, ?_⟩
        split at h
        · cases h
          rfl
        · split at h <;> cases h
          rfl
    have hholds : d'.holds found = true := by rw [holds_eq, hplace.2, hthere]
    simp only [create, locate_ok d' hlocate, if_neg hplace.1, hholds, if_true, hplace.2]

end Disk

/-! ## 2. Tables stay where they are -/

/-- Where the pages of a table file are, but not how many there are. -/
def TableFile.site (f : TableFile) : TableId × String × Layout := (f.id, f.path, f.layout)

/-- The databases have the same tables, in the same files. -/
structure Alike (db db' : Database) : Prop where
  catalog : db'.catalog = db.catalog
  sites : db'.files.map TableFile.site = db.files.map TableFile.site

namespace Alike

variable {db db' db'' : Database}

theorem refl (db : Database) : Alike db db := ⟨rfl, rfl⟩

theorem trans (h : Alike db db') (h' : Alike db' db'') : Alike db db'' :=
  ⟨h'.catalog.trans h.catalog, h'.sites.trans h.sites⟩

theorem symm (h : Alike db db') : Alike db' db := ⟨h.catalog.symm, h.sites.symm⟩

theorem modifyTable (db : Database) (id : TableId) (change : TableFile → TableFile)
    (hchange : ∀ f, (change f).site = f.site) : Alike db (db.modifyTable id change) where
  catalog := rfl
  sites := by
    rw [Database.modifyTable]
    cases db.ref? id with
    | none => rfl
    | some ref =>
      refine Array.ext_getElem? fun i => ?_
      simp only [Array.getElem?_map, Array.getElem?_modify]
      split
      · cases db.files[i]? with
        | none => rfl
        | some f => exact congrArg some (hchange f)
      · rfl

theorem written (db : Database) (table : TableId) (number : Nat) (disk : Disk) :
    Alike db (db.written table number disk) :=
  ⟨rfl, (modifyTable db table (.afterWrite number) fun _ => rfl).sites⟩

theorem shrunk (db : Database) (table : TableId) (number : Nat) (disk : Disk) :
    Alike db (db.shrunk table number disk) :=
  ⟨rfl, (modifyTable db table (.afterCut number) fun _ => rfl).sites⟩

/-- Databases that are alike stay so when they open a table in one place. -/
theorem withTable (h : Alike db db') (name : String) (layout : Layout) (place : String)
    (disk disk' : Disk) :
    Alike (db.withTable name layout place disk) (db'.withTable name layout place disk') where
  catalog := by
    have hsize := congrArg Array.size h.sites
    rw [Array.size_map, Array.size_map] at hsize
    simp only [Database.withTable, h.catalog, hsize]
  sites := by
    simp only [Database.withTable, Array.map_push, h.sites, h.catalog]
    rfl

theorem exists_table (h : Alike db db') {id : TableId} {f : TableFile}
    (hf : db.table? id = some f) : ∃ f', db'.table? id = some f' ∧ f'.site = f.site := by
  rw [Database.table?, Option.bind_eq_some_iff] at hf
  obtain ⟨entry, hentry, hf⟩ := hf
  have hsite := congrArg (·[entry.file.index]?) h.sites
  simp only [Array.getElem?_map, hf, Option.map_some, Option.map_eq_some_iff] at hsite
  obtain ⟨f', hf', hsite⟩ := hsite
  exact ⟨f', by rw [Database.table?, h.catalog, hentry, Option.bind_some, hf'], hsite⟩

/-- A table is where it was, and may have another number of pages. -/
theorem exists_extent (h : Alike db db') {id : TableId} {x : Extent}
    (hx : db.extent? id = some x) :
    ∃ x', db'.extent? id = some x' ∧ x'.path = x.path ∧ x'.layout = x.layout := by
  obtain ⟨f, hf, rfl⟩ := Database.exists_table hx
  obtain ⟨f', hf', hsite⟩ := h.exists_table hf
  exact ⟨_, Database.extent?_of_table hf', congrArg (·.2.1) hsite, congrArg (·.2.2) hsite⟩

end Alike

/-- The tables stay in their files, and no file goes. -/
structure Stays (db db' : Database) : Prop extends Alike db db' where
  within : db.disk.Within db'.disk

namespace Stays

variable {db db' db'' : Database}

theorem refl (db : Database) : Stays db db := ⟨.refl db, .refl db.disk⟩

theorem trans (h : Stays db db') (h' : Stays db' db'') : Stays db db'' :=
  ⟨h.toAlike.trans h'.toAlike, h.within.trans h'.within⟩

/-- Tables have nothing to do with the pool. -/
theorem withPool (db : Database) (pool : Pool) : Stays db { db with pool } :=
  ⟨⟨rfl, rfl⟩, .refl db.disk⟩

end Stays

theorem Step.stays {db db' : Database} (h : Step db db') : Stays db db' := by
  cases h with
  | quiet hq =>
    cases hq with
    | count table => exact ⟨.modifyTable db table .afterRead fun _ => rfl, .refl db.disk⟩
    | touch id => exact .withPool db _
    | @writeBack id frame x disk hframe hdirty hx hwrite =>
      have hwritten : Stays db (db.written id.table id.number disk) :=
        ⟨.written db id.table id.number disk, .of_withFile hwrite⟩
      exact hwritten.trans (.withPool _ _)
    | evict hframe hclean hpins => exact .withPool db _
    | load habsent hroom hx hread hdecode => exact .withPool db _
  | append hx hwrite => exact ⟨.written db _ _ _, .of_withFile hwrite⟩
  | shrink hx hcount habsent hcut => exact ⟨.shrunk db _ _ _, .of_withFile hcut⟩
  | change change hframe hv hid hlayout hbefore hdirty hserial hpins => exact .withPool db _

theorem Steps.stays {db db' : Database} (h : Steps db db') : Stays db db' := by
  induction h with
  | refl => exact .refl db
  | tail _ hstep ih => exact ih.trans hstep.stays

theorem Moved.stays {s s' : Session} {act : Act} (hm : Moved s act s') : Stays s.db s'.db := by
  cases hm with
  | worked rows hs => exact hs.stays
  | @pinned id db frame hq hframe => exact hq.steps.stays.trans (.withPool db _)
  | released hp => exact .withPool s.db _
  | discarded => exact .withPool s.db _
  | edited hp => exact .withPool s.db _
  | @room path full => exact ⟨⟨rfl, rfl⟩, .withRoom s.db.disk path full⟩

/-- **Whatever happens**, the tables stay in their files. -/
theorem Session.stays_after {s : Session} (h : Sound s.db) (acts : List Act) :
    Stays s.db (s.after acts).db :=
  after_induction (fun s' => Stays s.db s'.db) (fun _ => True)
    (fun _ _ _ _ _ hm hs => hs.trans hm.stays) h (.refl s.db) fun _ _ => trivial

/-! ## 3. Opening again -/

namespace Database

/-- Opens tables one after another, up to the first that cannot be opened. -/
def openEach : List Opening → DbM Unit
  | [] => return
  | o :: openings => do
    let _ ← openTable o.name o.path o.schema
    openEach openings

theorem openEach_cons_run (db : Database) (o : Opening) (openings : List Opening) :
    (openEach (o :: openings)).run db = match db.opened o with
      | .ok db' => (openEach openings).run db'
      | .error e => .error e db := by
  simp only [openEach, EStateM.run_bind, openTable_run]
  cases db.opened o <;> rfl

theorem openEach_cons_cases {db db₁ : Database} {o : Opening} {openings : List Opening}
    (h : (openEach (o :: openings)).run db = .ok () db₁) :
    ∃ db', db.opened o = .ok db' ∧ (openEach openings).run db' = .ok () db₁ := by
  rw [openEach_cons_run] at h
  cases ho : db.opened o with
  | error e =>
    rw [ho] at h
    cases h
  | ok db' =>
    rw [ho] at h
    exact ⟨db', rfl, h⟩

/-- What it takes to open a table. -/
theorem opened_cases {db db' : Database} {o : Opening} (h : db.opened o = .ok db') :
    ∃ layout place disk, ¬ db.catalog.ids.contains o.name = true ∧
      Layout.make o.schema db.catalog.pageSize = .ok layout ∧
      db.disk.create o.path = .ok (place, disk) ∧ db' = db.withTable o.name layout place disk := by
  unfold opened at h
  split at h
  · cases h
  · rename_i hname
    split at h
    · cases h
    · rename_i layout hlayout
      split at h
      · cases h
      · rename_i place disk hcreate
        cases h
        exact ⟨layout, place, disk, hname, hlayout, hcreate, rfl⟩

section OpenEach

variable {db db₁ : Database} {openings : List Opening}

theorem openAll_of_openEach (h : (openEach openings).run db = .ok () db₁) :
    db.openAll openings = db₁ := by
  induction openings generalizing db with
  | nil =>
    cases h
    rfl
  | cons o openings ih =>
    obtain ⟨db', ho, hrest⟩ := openEach_cons_cases h
    rw [openAll_cons, ho]
    exact ih hrest

theorem within_openEach (h : (openEach openings).run db = .ok () db₁) :
    db.disk.Within db₁.disk := by
  induction openings generalizing db with
  | nil =>
    cases h
    exact .refl _
  | cons o openings ih =>
    obtain ⟨db', ho, hrest⟩ := openEach_cons_cases h
    obtain ⟨layout, place, disk, -, -, hcreate, rfl⟩ := opened_cases ho
    exact (Disk.Within.of_create hcreate).trans (ih hrest)

/-- **What could be opened can be opened again**, as long as the files are there.  By induction on
the tables: each of them finds its file, and leaves the disk for the next one. -/
theorem openEach_again (h : (openEach openings).run db = .ok () db₁) {db' : Database}
    (halike : Alike db db') (hwithin : db₁.disk.Within db'.disk) :
    ∃ db₁', (openEach openings).run db' = .ok () db₁' ∧ Alike db₁ db₁' ∧ db₁'.disk = db'.disk ∧
      db₁'.pool = db'.pool := by
  induction openings generalizing db db' with
  | nil =>
    cases h
    exact ⟨db', rfl, halike, rfl, rfl⟩
  | cons o openings ih =>
    obtain ⟨db₂, ho, hrest⟩ := openEach_cons_cases h
    obtain ⟨layout, place, disk, hname, hlayout, hcreate, rfl⟩ := opened_cases ho
    obtain ⟨file, hfile⟩ := (Disk.create_cases hcreate).1
    have hthere : (db'.disk.file? place).isSome :=
      hwithin place (within_openEach hrest place (Option.isSome_iff_exists.mpr ⟨file, hfile⟩))
    have hagain : db'.opened o = .ok (db'.withTable o.name layout place db'.disk) := by
      simp only [opened, halike.catalog, if_neg hname, hlayout]
      rw [Disk.create_again hcreate hthere]
    obtain ⟨db₁', hrun, halike₁, hdisk, hpool⟩ :=
      ih hrest (halike.withTable o.name layout place disk db'.disk) hwithin
    refine ⟨db₁', ?_, halike₁, hdisk, hpool⟩
    rw [openEach_cons_run, hagain]
    exact hrun

end OpenEach

/-- Each table has as many pages as its file holds whole. -/
theorem Opened.count_eq {db : Database} (h : db.Opened) {id : TableId} {x : Extent}
    (hx : db.extent? id = some x) : x.count = db.disk.size x.path / x.layout.pageSize := by
  obtain ⟨f, hf, rfl⟩ := exists_table hx
  rw [table?, Option.bind_eq_some_iff] at hf
  obtain ⟨entry, hentry, hf⟩ := hf
  obtain ⟨f', file, hf', -, hfile, hcount⟩ := h id entry hentry
  obtain rfl : f = f' := Option.some.inj (hf.symm.trans hf')
  rw [hcount, Disk.size, hfile]
  rfl

end Database

/-- **The pages of the tables are counted anew**, and come to the same numbers. -/
theorem Alike.extent?_eq {db db' : Database} (halike : Alike db db') (h : Sound db)
    (hdisk : db'.disk = db.disk) (ho : db'.Opened) : db'.extent? = db.extent? := by
  have hsome : ∀ {id x}, db.extent? id = some x → db'.extent? id = some x := by
    intro id x hx
    obtain ⟨x', hx', hpath, hlayout⟩ := halike.exists_extent hx
    have hcount := ho.count_eq hx'
    rw [hdisk, hpath, hlayout, (h.carried hx).count_eq] at hcount
    rw [hx', Option.some.injEq, Extent.mk.injEq]
    exact ⟨hpath, hlayout, hcount⟩
  funext id
  cases hx : db.extent? id with
  | some x => exact hsome hx
  | none =>
    cases hx' : db'.extent? id with
    | none => rfl
    | some x' =>
      obtain ⟨x, hx₀, -⟩ := halike.symm.exists_extent hx'
      exact absurd (hx.symm.trans hx₀) (by simp)

namespace Database

/-- **A database is opened again** from its disk, with an empty pool of any capacity. -/
theorem exists_reopened {disk : Disk} {pageSize capacity : Nat} {db₀ db₁ db : Database}
    (h₀ : onDisk disk pageSize capacity = .ok db₀) {openings : List Opening}
    (hopen : (openEach openings).run db₀ = .ok () db₁) (hstays : Stays db₁ db) {capacity' : Nat}
    (hcapacity : 0 < capacity') :
    ∃ fresh reopened, onDisk db.disk pageSize capacity' = .ok fresh ∧
      (openEach openings).run fresh = .ok () reopened ∧ Alike db reopened ∧ reopened.Opened ∧
      reopened.disk = db.disk ∧ reopened.pool = ⟨Lru.empty capacity', [], 0⟩ := by
  rw [onDisk_eq disk pageSize (capacity_pos_of_onDisk h₀), Except.ok.injEq] at h₀
  subst h₀
  obtain ⟨reopened, hrun, halike, hdisk, hpool⟩ := openEach_again hopen
    (show Alike _ ⟨db.disk, #[], .empty pageSize, ⟨Lru.empty capacity', [], 0⟩⟩ from ⟨rfl, rfl⟩)
    hstays.within
  refine ⟨_, reopened, onDisk_eq db.disk pageSize hcapacity, hrun,
    hstays.toAlike.symm.trans halike, ?_, hdisk, hpool⟩
  rw [← openAll_of_openEach hrun]
  exact Opened.openAll (fun id entry hentry => absurd hentry (by simp [Catalog.empty])) openings

end Database
end RowStore
