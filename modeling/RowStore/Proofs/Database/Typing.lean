/-
# The pages of a database belong to its tables

Whatever is in the files of the tables, a page that has been read is in order and is laid out as its
table says, and so is every page that has come of it.  `Typed` says this of the pages in the cache
and of those beside it, and of the catalog that every table has a file.

Nothing is asked of the files: they may hold anything, change at any time, or be the same file for
several tables.  What is upheld is `Stays`: the tables are still those of a first database, with the
layouts that they had there, and the database is typed.  There is one lemma for each part of which
operations are made; a page that is read suits its table (`readPage_upholds`).

Opening tables only adds to what is known of them (`Typed.opened`, `Adds`).
-/
import RowStore.Proofs.Database.Opening
import RowStore.Proofs.Database.Pool
import RowStore.Proofs.Database.Sessions
import RowStore.Proofs.Database.Upholding

namespace RowStore

namespace Database

/-! ## 1. Tables and pages -/

/-- How the pages of a table of the catalog are laid out. -/
def layout? (db : Database) (id : TableId) : Option Layout := (db.table? id).map (·.layout)

theorem layout?_of_extent {db : Database} {id : TableId} {x : Extent} (hx : db.extent? id = some x) :
    db.layout? id = some x.layout := by
  obtain ⟨f, hf, rfl⟩ := exists_table hx
  rw [layout?, hf, Option.map_some]

/-- The same tables in the same files, whose counts and bytes may differ. -/
structure SameTables (db db' : Database) : Prop where
  catalog : db'.catalog = db.catalog
  files : ∀ i : Nat, db'.files[i]?.map (fun f => (f.id, f.layout)) =
    db.files[i]?.map fun f => (f.id, f.layout)

end Database

/-- The page may stand for a page of a table: it is in order, and it is laid out as the table
says. -/
structure Page.Suits (db : Database) (id : PageId) (page : Page) : Prop where
  valid : page.Valid
  id_eq : page.id = id
  layout : db.layout? id.table = some page.layout

/-- Every table has a file with its number, and the pages in memory suit their tables. -/
structure Database.Typed (db : Database) : Prop where
  registered : db.Registered
  /-- The numbers that will be given out are new. -/
  fresh : ∀ id ref, db.ref? id = some ref → id < db.catalog.nextId
  inOrder : db.pool.cache.InOrder
  cached : ∀ id frame, db.pool.cache.peek? id = some frame → frame.page.Suits db id
  detached : ∀ frame ∈ db.pool.detached, frame.page.Suits db frame.page.id

/-- The tables are still those of the first database, and the pages suit them. -/
structure Database.Stays (db₀ db : Database) : Prop where
  same : db₀.SameTables db
  typed : db.Typed

namespace Database

variable {db₀ db : Database}

namespace SameTables

theorem refl (db : Database) : db.SameTables db := ⟨rfl, fun _ => rfl⟩

theorem ref?_eq (h : db₀.SameTables db) (id : TableId) : db.ref? id = db₀.ref? id := by
  rw [ref?, ref?, h.catalog]

theorem table?_eq (h : db₀.SameTables db) (id : TableId) :
    (db.table? id).map (fun f => (f.id, f.layout)) =
      (db₀.table? id).map fun f => (f.id, f.layout) := by
  rw [table?, table?, h.catalog]
  cases db₀.catalog.tables[id]? with
  | none => rfl
  | some entry => exact h.files entry.file.index

theorem layout?_eq (h : db₀.SameTables db) (id : TableId) : db.layout? id = db₀.layout? id := by
  have hlayout := congrArg (Option.map Prod.snd) (h.table?_eq id)
  simp only [Option.map_map, Function.comp_def] at hlayout
  exact hlayout

/-- A table has its file as long as the tables are the same. -/
theorem exists_table (h : db₀.SameTables db) {id : TableId} {f : TableFile}
    (hf : db₀.table? id = some f) :
    ∃ f', db.table? id = some f' ∧ f'.id = f.id ∧ f'.layout = f.layout := by
  have hsame := h.table?_eq id
  rw [hf, Option.map_some, Option.map_eq_some_iff] at hsame
  obtain ⟨f', hf', hsame⟩ := hsame
  exact ⟨f', hf', Prod.mk.inj hsame⟩

theorem trans {db' : Database} (h : db₀.SameTables db) (h' : db.SameTables db') :
    db₀.SameTables db' :=
  ⟨h'.catalog.trans h.catalog, fun i => (h'.files i).trans (h.files i)⟩

end SameTables

end Database

namespace Page.Suits

variable {db db' : Database} {id : PageId} {page page' : Page}

theorem congr (h : page.Suits db id) (hlayout : db'.layout? id.table = db.layout? id.table) :
    page.Suits db' id :=
  ⟨h.valid, h.id_eq, hlayout.trans h.layout⟩

/-- Another page in order, with the same name and layout, suits as well. -/
theorem replace (h : page.Suits db id) (hv : page'.Valid) (hid : page'.id = page.id)
    (hlayout : page'.layout = page.layout) : page'.Suits db id :=
  ⟨hv, hid.trans h.id_eq, hlayout ▸ h.layout⟩

theorem mark (h : page.Suits db id) (dirty : Bool) : (page.mark dirty).Suits db id :=
  h.replace (h.valid.mark dirty) rfl rfl

theorem capture (h : page.Suits db id) : page.capture.Suits db id :=
  h.replace h.valid.capture rfl rfl

theorem insert (h : page.Suits db id) {row stored : Row}
    (hi : page.insert row = .ok (page', stored)) : page'.Suits db id := by
  obtain ⟨-, slot, -, -, rfl⟩ := insert_cases hi
  exact h.replace (h.valid.insert hi) rfl rfl

theorem delete (h : page.Suits db id) {row freed : Row}
    (hd : page.delete row = .ok (page', freed)) : page'.Suits db id := by
  obtain ⟨slot, -, -, rfl, -⟩ := delete_cases hd
  exact h.replace (h.valid.delete hd) rfl rfl

/-- Nothing that is done with a page through a handle puts it out of order. -/
theorem performAll (h : page.Suits db id) (ops : List Op) :
    (ops.foldl Page.perform page).Suits db id := by
  induction ops generalizing page with
  | nil => exact h
  | cons op ops ih =>
    obtain ⟨hv, hid, hlayout⟩ := h.valid.perform op
    exact ih (h.replace hv hid hlayout)

/-- The rows of the page have the schema of the table, and are stored on the page. -/
theorem row_schema (h : page.Suits db id) {slot : Nat} {row : Row} (hr : page.row? slot = some row) :
    row.schema = page.layout.schema := h.valid.schema_eq hr

theorem mem_rows (h : page.Suits db id) {row : Row} (hrow : row ∈ page.rows) :
    row.schema = page.layout.schema := h.valid.schema_of_mem hrow

end Page.Suits

namespace Database

namespace Stays

variable {db₀ db : Database}

theorem cached (h : db₀.Stays db) {id : PageId} {frame : Frame}
    (hframe : db.pool.cache.peek? id = some frame) : frame.page.Suits db₀ id :=
  (h.typed.cached id frame hframe).congr (h.same.layout?_eq id.table).symm

theorem detached (h : db₀.Stays db) {frame : Frame} (hframe : frame ∈ db.pool.detached) :
    frame.page.Suits db₀ frame.page.id :=
  (h.typed.detached frame hframe).congr (h.same.layout?_eq _).symm

/-- A table of the catalog has a file, and its layout there. -/
theorem exists_file (h : db₀.Stays db) {id : TableId} {ref : TableRef}
    (href : db₀.ref? id = some ref) :
    ∃ f, db.files[ref.index]? = some f ∧ f.id = id ∧ db₀.layout? id = some f.layout := by
  have href' : db.ref? id = some ref := (h.same.ref?_eq id).trans href
  obtain ⟨f, hf, hid⟩ := h.typed.registered id ref href'
  refine ⟨f, hf, hid, ?_⟩
  rw [← h.same.layout?_eq, layout?, table?_of_ref href', hf, Option.map_some]

/-- Another pool will do if its pages suit the tables. -/
theorem withPool (h : db₀.Stays db) {pool : Pool} (hord : pool.cache.InOrder)
    (hcached : ∀ id frame, pool.cache.peek? id = some frame → frame.page.Suits db₀ id)
    (hdetached : ∀ frame ∈ pool.detached, frame.page.Suits db₀ frame.page.id) :
    db₀.Stays { db with pool } where
  same := ⟨h.same.catalog, h.same.files⟩
  typed :=
    { registered := h.typed.registered
      fresh := h.typed.fresh
      inOrder := hord
      cached := fun id frame hframe => (hcached id frame hframe).congr (h.same.layout?_eq id.table)
      detached := fun frame hframe => (hdetached frame hframe).congr (h.same.layout?_eq _) }

theorem withCache (h : db₀.Stays db) {cache : Lru PageId Frame} (hord : cache.InOrder)
    (hcached : ∀ id frame, cache.peek? id = some frame → frame.page.Suits db₀ id) :
    db₀.Stays (db.withCache cache) :=
  h.withPool hord hcached fun _ hframe => h.detached hframe

/-- Any disk will do. -/
theorem withDisk (h : db₀.Stays db) (disk : Disk) : db₀.Stays { db with disk } where
  same := ⟨h.same.catalog, h.same.files⟩
  typed :=
    { registered := h.typed.registered
      fresh := h.typed.fresh
      inOrder := h.typed.inOrder
      cached := fun id frame hframe => (h.typed.cached id frame hframe).congr rfl
      detached := fun frame hframe => (h.typed.detached frame hframe).congr rfl }

/-- What changes in the entry of a file are its counts. -/
theorem withFile (h : db₀.Stays db) (ref : TableRef) {change : TableFile → TableFile}
    (hid : ∀ f, (change f).id = f.id) (hlayout : ∀ f, (change f).layout = f.layout) :
    db₀.Stays { db with files := db.files.modify ref.index change } := by
  have hsame : db.SameTables { db with files := db.files.modify ref.index change } := by
    refine ⟨rfl, ?_⟩
    intro i
    simp only [Array.getElem?_modify]
    split
    · rw [Option.map_map]
      refine congrArg (Option.map · _) (funext fun f => ?_)
      simp only [Function.comp, hid, hlayout]
    · rfl
  refine ⟨h.same.trans hsame, ?_, h.typed.fresh, h.typed.inOrder, ?_, ?_⟩
  · intro id ref' href'
    obtain ⟨f, hf, hf'⟩ := h.typed.registered id ref' href'
    have hfile := hsame.files ref'.index
    rw [hf, Option.map_some, Option.map_eq_some_iff] at hfile
    obtain ⟨f', hf'', heq⟩ := hfile
    exact ⟨f', hf'', (Prod.mk.inj heq).1.trans hf'⟩
  · intro id frame hframe
    exact (h.typed.cached id frame hframe).congr (hsame.layout?_eq id.table)
  · intro frame hframe
    exact (h.typed.detached frame hframe).congr (hsame.layout?_eq _)

/-- The entry of a table changes, by its number. -/
theorem modifyTable (h : db₀.Stays db) (id : TableId) {change : TableFile → TableFile}
    (hid : ∀ f, (change f).id = f.id) (hlayout : ∀ f, (change f).layout = f.layout) :
    db₀.Stays (db.modifyTable id change) := by
  unfold Database.modifyTable
  cases db.ref? id with
  | none => exact h
  | some ref => exact h.withFile ref hid hlayout

theorem written (h : db₀.Stays db) (id : TableId) (number : Nat) (disk : Disk) :
    db₀.Stays (db.written id number disk) := by
  have hentry : db₀.Stays (db.modifyTable id (.afterWrite number)) :=
    h.modifyTable id (fun _ => rfl) fun _ => rfl
  exact hentry.withDisk disk

theorem shrunk (h : db₀.Stays db) (id : TableId) (number : Nat) (disk : Disk) :
    db₀.Stays (db.shrunk id number disk) := by
  have hentry : db₀.Stays (db.modifyTable id (.afterCut number)) :=
    h.modifyTable id (fun _ => rfl) fun _ => rfl
  exact hentry.withDisk disk

/-- A page that is written back is written to its own place. -/
theorem writeBack_run (h : db₀.Stays db) (id : PageId) :
    WroteBack db id ((Database.writeBack id).run db) := by
  refine h.typed.registered.writeBack_run fun frame hframe => ?_
  have hsuits := h.typed.cached id frame hframe
  have hlayout := hsuits.layout
  rw [Database.layout?, Option.map_eq_some_iff] at hlayout
  obtain ⟨f, hf, -⟩ := hlayout
  exact ⟨hsuits.id_eq, _, Database.extent?_of_table hf⟩

end Stays

/-! ## 2. Files -/

section Parts

variable {db₀ : Database}

/-! The parts of this section that only look at the state keep any condition. -/

section Look

variable {Inv : Database → Prop}

theorem file_any (ref : TableRef) : Upholds Inv Any (file ref) := by
  refine .bind .get fun db _ => ?_
  cases db.files[ref.index]? with
  | none => exact .throw _
  | some f => exact .pure trivial

theorem file_upholds (hstays : ∀ db, Inv db → db₀.Stays db) {id : TableId} {ref : TableRef}
    (href : db₀.ref? id = some ref) :
    Upholds Inv (fun f => f.id = id ∧ db₀.layout? id = some f.layout) (file ref) := by
  intro db h
  obtain ⟨f, hf, hfile⟩ := (hstays db h).exists_file href
  have hrun : (file ref).run db = .ok f db := by
    simp only [file, EStateM.run_bind, EStateM.run_get, hf]
    rfl
  rw [hrun]
  exact ⟨h, hfile⟩

theorem tableOf_upholds (hstays : ∀ db, Inv db → db₀.Stays db) (id : TableId) :
    Upholds Inv (fun ref => db₀.ref? id = some ref) (tableOf id) := by
  refine .bind .get fun db hdb => ?_
  have href : db.ref? id = db₀.ref? id := (hstays db hdb).same.ref?_eq id
  rw [ref?] at href
  cases hentry : db.catalog.tables[id]? with
  | none => exact .throw _
  | some entry =>
    rw [hentry, Option.map_some] at href
    exact .pure href.symm

theorem chooseVictim_upholds : Upholds Inv Any chooseVictim := by
  refine .bind .get fun db _ => ?_
  simp only
  split
  · exact .pure trivial
  · split
    · exact .throw _
    · exact .pure trivial

end Look

theorem modifyFile_upholds (ref : TableRef) {change : TableFile → TableFile}
    (hid : ∀ f, (change f).id = f.id) (hlayout : ∀ f, (change f).layout = f.layout) :
    Upholds db₀.Stays Any (modifyFile ref change) :=
  .change fun _ h => h.withFile ref hid hlayout

/-- A page that is read suits its table. -/
theorem readPage_upholds {id : TableId} {ref : TableRef} (href : db₀.ref? id = some ref)
    (number : Nat) : Upholds db₀.Stays (fun page => page.Suits db₀ ⟨id, number⟩)
      (readPage ref number) := by
  refine .bind (file_upholds (fun _ h => h) href) fun f ⟨hid, hlayout⟩ => ?_
  refine .bind .get fun db _ => ?_
  refine .bind (attemptIo_upholds _) fun image _ => ?_
  refine .bind (modifyFile_upholds ref (fun _ => rfl) fun _ => rfl) fun _ _ => ?_
  refine (attempt_upholds _).mono fun page hdecode => ?_
  obtain ⟨hv, hpid, hplayout⟩ := (Page.Reachable.decode hdecode).valid
  exact ⟨hv, by rw [hpid, hid], by rw [hplayout, hlayout]⟩

theorem writeAt_upholds (ref : TableRef) (number : Nat) (image : Bytes) :
    Upholds db₀.Stays Any (writeAt ref number image) := by
  refine .bind (file_any ref) fun f _ => .bind .get fun db hdb => ?_
  refine .bind (attemptIo_upholds _) fun disk _ => ?_
  exact .bind (.set (hdb.withDisk disk)) fun _ _ =>
    modifyFile_upholds ref (fun _ => rfl) fun _ => rfl

theorem appendPage_upholds (ref : TableRef) : Upholds db₀.Stays Any (appendPage ref) :=
  .bind (file_any ref) fun _ _ => .bind (writeAt_upholds ref _ _) fun _ _ => .pure trivial

theorem removeLastPage_upholds (ref : TableRef) (id : PageId) :
    Upholds db₀.Stays Any (removeLastPage ref id) := by
  refine .bind (file_any ref) fun f _ => ?_
  split
  · refine .bind .get fun db hdb => .bind (attemptIo_upholds _) fun disk _ => ?_
    exact .bind (.set (hdb.withDisk disk)) fun _ _ =>
      modifyFile_upholds ref (fun _ => rfl) fun _ => rfl
  · exact .done

/-! ## 3. The pool -/

/-- A cached page changes, into one that suits its table too. -/
theorem modifyCache_upholds (id : PageId) {change : Frame → Frame}
    (hchange : ∀ frame : Frame, frame.page.Suits db₀ id → (change frame).page.Suits db₀ id) :
    Upholds db₀.Stays Any
      (modifyPool fun pool => { pool with cache := pool.cache.modify id change }) := by
  refine .change fun db h => ?_
  refine h.withCache (h.typed.inOrder.modify id change) fun id' frame hframe => ?_
  rcases h.typed.inOrder.modify_cases hframe with ⟨rfl, old, hold, rfl⟩ | ⟨-, hold⟩
  · exact hchange old (h.cached hold)
  · exact h.cached hold

theorem modifyPage_upholds (id : PageId) {change : Page → Page}
    (hchange : ∀ page : Page, page.Suits db₀ id → (change page).Suits db₀ id) :
    Upholds db₀.Stays Any (modifyPage id change) :=
  modifyCache_upholds id fun frame h => hchange frame.page h

theorem writeBack_upholds (id : PageId) : Upholds db₀.Stays Any (writeBack id) := by
  refine .bind .get fun db _ => ?_
  split
  · exact .done
  · split
    · refine .bind (tableOf_upholds (fun _ h => h) id.table) fun ref _ => ?_
      refine .bind (writeAt_upholds ref _ _) fun _ _ => ?_
      exact modifyCache_upholds id fun frame h => (h.mark false).capture
    · exact .done

theorem touch_upholds (id : PageId) :
    Upholds db₀.Stays Any (modifyPool fun pool => { pool with cache := pool.cache.touch id }) := by
  refine .change fun db h => ?_
  refine h.withCache (h.typed.inOrder.touch id) fun id' frame hframe => ?_
  exact h.cached ((h.typed.inOrder.peek?_touch id id').symm.trans hframe)

/-- A page that is dropped suits its table still. -/
theorem drop_upholds (id : PageId) : Upholds db₀.Stays Any (drop id) := by
  refine .change fun db h => ?_
  refine h.withPool (h.typed.inOrder.erase id) ?_ ?_
  · intro id' frame hframe
    exact h.cached (h.typed.inOrder.erase_cases hframe).2
  · intro frame hframe
    have hfst := h.typed.inOrder.fst_erase id
    cases hdropped : (db.pool.cache.erase id).1 with
    | none =>
      simp only [hdropped] at hframe
      exact h.detached hframe
    | some dropped =>
      simp only [hdropped] at hframe
      have hsuits : dropped.page.Suits db₀ id := h.cached (hfst.symm.trans hdropped)
      split at hframe
      · exact h.detached hframe
      · rcases List.mem_cons.mp hframe with rfl | hframe
        · rwa [hsuits.id_eq]
        · exact h.detached hframe

theorem load_upholds {id : PageId} {page : Page} (hpage : page.Suits db₀ id) :
    Upholds db₀.Stays (fun frame => frame.page.Suits db₀ id) (load id page) := by
  refine .bind .get fun db _ => ?_
  refine .bind (.change (fun db h => ?_)) fun _ _ => .pure hpage
  refine h.withPool (h.typed.inOrder.insert id _) ?_ fun _ hframe => h.detached hframe
  intro id' frame hframe
  rcases h.typed.inOrder.of_peek?_insert hframe with ⟨rfl, rfl⟩ | hold
  · exact hpage
  · exact h.cached hold

theorem replacePool_upholds (capacity : Nat) : Upholds db₀.Stays Any (replacePool capacity) := by
  refine .bind (attempt_upholds _) fun pool hpool => .change fun db h => ?_
  rw [Pool.make, Lru.make] at hpool
  split at hpool
  · cases hpool
  · rename_i hpos
    cases hpool
    refine h.withPool (Lru.inOrder_empty (Nat.pos_of_ne_zero hpos)) ?_ ?_
    · intro id frame hframe
      rw [Lru.peek?_empty] at hframe
      cases hframe
    · intro frame hframe
      cases hframe

/-- A page is changed through a handle, in the cache or beside it. -/
theorem modifyPinned_upholds (p : Pin) {change : Frame → Frame}
    (hchange : ∀ id (frame : Frame), frame.page.Suits db₀ id → (change frame).page.Suits db₀ id) :
    Upholds db₀.Stays Any (modifyPinned p change) := by
  refine .change fun db h => ?_
  by_cases hcached : isCached db.pool p
  · simp only [hcached, if_true]
    exact (modifyCache_upholds p.page (hchange p.page) db h).1
  · simp only [hcached]
    refine h.withPool h.typed.inOrder (fun _ _ hframe => h.cached hframe) ?_
    intro frame hframe
    obtain ⟨old, hold, rfl⟩ := List.mem_map.mp hframe
    have hsuits := h.detached hold
    split
    · have hchanged := hchange _ old hsuits
      rwa [hchanged.id_eq]
    · exact hsuits

/-- Frames beside the cache that nobody holds go away. -/
theorem clearDetached_upholds : Upholds db₀.Stays Any
    (modifyPool fun pool => { pool with detached := pool.detached.filter (·.pins != 0) }) := by
  refine .change fun db h => ?_
  refine h.withPool h.typed.inOrder (fun _ _ hframe => h.cached hframe) ?_
  intro frame hframe
  exact h.detached (List.mem_filter.mp hframe).1

theorem unpin_upholds (p : Pin) : Upholds db₀.Stays Any (unpin p) :=
  .bind (modifyPinned_upholds p fun _ _ h => h) fun _ _ => clearDetached_upholds

end Parts

/-! ## 4. Opening tables -/

/-- What is known of the tables of the first database is so of the second, which may have more. -/
structure Adds (db db' : Database) : Prop where
  ref? : ∀ id ref, db.ref? id = some ref → db'.ref? id = some ref
  layout? : ∀ id layout, db.layout? id = some layout → db'.layout? id = some layout

theorem SameTables.adds {db db' : Database} (h : db.SameTables db') : db.Adds db' where
  ref? _ _ href := (h.ref?_eq _).trans href
  layout? _ _ hlayout := (h.layout?_eq _).trans hlayout

/-- What is known of every database to start with. -/
theorem typed_onDisk {disk : Disk} {pageSize capacity : Nat} {db : Database}
    (h : onDisk disk pageSize capacity = .ok db) : db.Typed := by
  have hpool : ∃ pool, Pool.make capacity = .ok pool ∧ db = ⟨disk, #[], .empty pageSize, pool⟩ := by
    unfold onDisk at h
    cases hmake : Pool.make capacity with
    | error e =>
      rw [hmake] at h
      cases h
    | ok pool =>
      rw [hmake] at h
      cases h
      exact ⟨pool, rfl, rfl⟩
  obtain ⟨pool, hmake, rfl⟩ := hpool
  have hnone : ∀ id : TableId, Database.ref? ⟨disk, #[], .empty pageSize, pool⟩ id = none := by
    intro id
    simp [Database.ref?, Catalog.empty]
  rw [Pool.make, Lru.make] at hmake
  split at hmake
  · cases hmake
  · rename_i hpos
    cases hmake
    refine ⟨?_, ?_, Lru.inOrder_empty (Nat.pos_of_ne_zero hpos), ?_, ?_⟩
    · intro id ref href
      rw [hnone] at href
      cases href
    · intro id ref href
      rw [hnone] at href
      cases href
    · intro id frame hframe
      rw [Lru.peek?_empty] at hframe
      cases hframe
    · intro frame hframe
      cases hframe

section WithTable

variable {db : Database} {name place : String} {layout : Layout} {disk : Disk}

theorem ref?_withTable (id : TableId) : (db.withTable name layout place disk).ref? id =
    if id = db.catalog.nextId then some ⟨db.files.size⟩ else db.ref? id := by
  rw [Database.ref?, withTable, Std.TreeMap.getElem?_insert]
  by_cases hid : id = db.catalog.nextId
  · rw [if_pos hid, if_pos (by rw [hid]; exact Std.ReflCmp.compare_self)]
    rfl
  · have hne : ¬ compare db.catalog.nextId id = .eq := fun heq =>
      hid (Std.LawfulEqOrd.eq_of_compare heq).symm
    rw [if_neg hid, if_neg hne]
    rfl

/-- The files that were there are there still. -/
theorem getElem?_files_withTable {i : Nat} {f : TableFile} (hf : db.files[i]? = some f) :
    (db.withTable name layout place disk).files[i]? = some f := by
  have hlt := (Array.getElem?_eq_some_iff.mp hf).1
  rw [withTable, Array.getElem?_push, if_neg (Nat.ne_of_lt hlt), hf]

/-- A new table takes no file from another. -/
theorem table?_withTable_of_ne {id : TableId} {f : TableFile} (hne : id ≠ db.catalog.nextId)
    (hf : db.table? id = some f) : (db.withTable name layout place disk).table? id = some f := by
  obtain ⟨ref, href, hfile⟩ := exists_ref_of_table hf
  have hkept : (db.withTable name layout place disk).ref? id = some ref := by
    rw [ref?_withTable, if_neg hne, href]
  rw [table?_of_ref hkept, getElem?_files_withTable hfile]

/-- A new table takes nothing from the others. -/
theorem Typed.adds_withTable (h : db.Typed) : db.Adds (db.withTable name layout place disk) := by
  have href : ∀ id ref, db.ref? id = some ref →
      (db.withTable name layout place disk).ref? id = some ref := by
    intro id ref href
    have hold := h.fresh id ref href
    rw [ref?_withTable, if_neg (Nat.ne_of_lt hold), href]
  refine ⟨href, ?_⟩
  intro id l hl
  rw [layout?, Option.map_eq_some_iff] at hl
  obtain ⟨f, hf, rfl⟩ := hl
  obtain ⟨ref, hr, -⟩ := exists_ref_of_table hf
  have hne : id ≠ db.catalog.nextId := Nat.ne_of_lt (h.fresh id ref hr)
  rw [layout?, table?_withTable_of_ne hne hf, Option.map_some]

theorem Typed.withTable (h : db.Typed) : (db.withTable name layout place disk).Typed := by
  have hadds : db.Adds (db.withTable name layout place disk) := h.adds_withTable
  have hsuits : ∀ {id : PageId} {page : Page}, page.Suits db id →
      page.Suits (db.withTable name layout place disk) id :=
    fun hpage => ⟨hpage.valid, hpage.id_eq, hadds.layout? _ _ hpage.layout⟩
  refine ⟨?_, ?_, h.inOrder, fun id frame hframe => hsuits (h.cached id frame hframe),
    fun frame hframe => hsuits (h.detached frame hframe)⟩
  · intro id ref href
    rw [ref?_withTable] at href
    split at href
    · rename_i hid
      cases href
      exact ⟨_, Array.getElem?_push_size, hid.symm⟩
    · obtain ⟨f, hf, hid⟩ := h.registered id ref href
      exact ⟨f, getElem?_files_withTable hf, hid⟩
  · intro id ref href
    change id < db.catalog.nextId + 1
    rw [ref?_withTable] at href
    split at href
    · rename_i hid
      rw [hid]
      exact Nat.lt_succ_self _
    · exact Nat.lt_succ_of_lt (h.fresh id ref href)

end WithTable

/-- **Opening a table**, whether it succeeds or fails, leaves a typed database typed, and what is
known of its tables is so afterwards. -/
theorem Typed.opened {db : Database} (h : db.Typed) (o : Opening) :
    (db.openAll [o]).Typed ∧ db.Adds (db.openAll [o]) := by
  rw [openAll_cons]
  change ((db.opened o).toOption.getD db).Typed ∧ db.Adds ((db.opened o).toOption.getD db)
  unfold Database.opened
  split
  · exact ⟨h, (SameTables.refl db).adds⟩
  · split
    · exact ⟨h, (SameTables.refl db).adds⟩
    · split
      · exact ⟨h, (SameTables.refl db).adds⟩
      · exact ⟨h.withTable, h.adds_withTable⟩

end Database
end RowStore
