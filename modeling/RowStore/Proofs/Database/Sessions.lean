/-
# Sessions

A session is a history of a database as its users see it.  They hold pages and let them go, keep rows
of their own, have rows stored and deleted, flush and scan, and change the pages that they hold; they
may also discard pages, append empty ones, and see the device of a file fill up or get room again.
Acts are done one after another, and an act that fails is one of them (`Session.after`).

`Moved` says once what an act can do to a session, and `Session.perform_moved` that it does nothing
else.  Most acts are runs of steps; the others change the pool and not the disk, or the disk and not
what is on it.  So every session is sound (`Session.sound_after`), if it starts on tables whose files
are `Separate`.
-/
import RowStore.Proofs.Database.Refinement
import RowStore.Proofs.Stream.Reading

namespace RowStore

/-! ## 1. Acts -/

/-- A database with the holds and the rows of its users. -/
structure Session where
  db : Database
  /-- The handles that are out, the first one first. -/
  held : List Database.Pin
  /-- Rows outside the tables, with the places that they have been given. -/
  rows : List Row

inductive Act where
  /-- Fetches a page and keeps a handle to it. -/
  | get (page : PageId)
  /-- Lets a handle go. -/
  | letGo (handle : Nat)
  /-- Comes by a row from elsewhere. -/
  | row (row : Row)
  /-- Stores one of the rows in a table. -/
  | insert (table : TableId) (row : Nat)
  /-- Deletes one of the rows from the table that its place names. -/
  | delete (row : Nat)
  | flush (page : PageId)
  | flushAll
  | scan (table : TableId)
  | discard (page : PageId)
  | append (table : TableId)
  /-- Changes a page through a handle. -/
  | edit (handle : Nat) (ops : List Page.Op)
  /-- The device of a file fills up, or has room again. -/
  | room (path : String) (full : Bool)

/-- A file that ends takes writes or refuses them from now on. -/
def Disk.withRoom (d : Disk) (path : String) (full : Bool) : Disk :=
  match d.file? path with
  | none => d
  | some f => if f.endless then d else ⟨d.files.insert path { f with full }⟩

namespace Frame

/-- One holder more. -/
def pinned (frame : Frame) : Frame := { frame with pins := frame.pins + 1 }

def edited (ops : List Page.Op) (frame : Frame) : Frame :=
  { frame with page := ops.foldl Page.perform frame.page }

end Frame

namespace Session

/-- The users of a database have nothing at first. -/
def start (db : Database) : Session := ⟨db, [], []⟩

/-- A step on the database alone. -/
def onDatabase {α : Type} (x : DbM α) : EStateM Error Session α := fun s =>
  match x.run s.db with
  | .ok a db => .ok a { s with db }
  | .error e db => .error e { s with db }

/-- What an act does.  One that is about a handle or a row that there is not does nothing. -/
def perform : Act → EStateM Error Session Unit
  | .get page => do
    let p ← onDatabase (Database.pin page)
    modify fun s => { s with held := s.held ++ [p] }
  | .letGo handle => do
    match (← get).held[handle]? with
    | none => return
    | some p =>
      onDatabase (Database.unpin p)
      modify fun s => { s with held := s.held.eraseIdx handle }
  | .row row => modify fun s => { s with rows := s.rows ++ [row] }
  | .insert table i => do
    match (← get).rows[i]? with
    | none => return
    | some row =>
      let placed ← onDatabase (Database.insert table row)
      modify fun s => { s with rows := s.rows.set i placed.2 }
  | .delete i => do
    match (← get).rows[i]? with
    | none => return
    | some row =>
      let freed ← onDatabase (Database.delete row)
      modify fun s => { s with rows := s.rows.set i freed.2 }
  | .flush page => do
    let _ ← onDatabase (Database.flushPage page)
  | .flushAll => do
    let _ ← onDatabase Database.flushAll
  | .scan table => do
    let _ ← onDatabase (Database.scanTable table)
  | .discard page => do
    let _ ← onDatabase (Database.discard page)
  | .append table => do
    let ref ← onDatabase (Database.tableOf table)
    let _ ← onDatabase (Database.appendPage ref)
  | .edit handle ops => do
    match (← get).held[handle]? with
    | none => return
    | some p => onDatabase (Database.modifyPinned p (Frame.edited ops))
  | .room path full => modify fun s =>
    { s with db := { s.db with disk := s.db.disk.withRoom path full } }

/-- The session behind acts, whether they succeed or fail. -/
def after (s : Session) : List Act → Session
  | [] => s
  | act :: acts => (endState ((perform act).run s)).after acts

end Session

/-! ## 2. What an act can do -/

/-- What an act can make of a session. -/
inductive Moved (s : Session) : Act → Session → Prop
  | worked {act : Act} {db : Database} (rows : List Row) (h : Steps s.db db) :
      Moved s act ⟨db, s.held, rows⟩
  | pinned {id : PageId} {db : Database} {frame : Frame} (hq : Quiets s.db db)
      (hframe : db.pool.cache.peek? id = some frame) :
      Moved s (.get id) ⟨db.withCache (db.pool.cache.modify id Frame.pinned),
        s.held ++ [⟨id, frame.serial⟩], s.rows⟩
  | released {handle : Nat} {p : Database.Pin} (hp : s.held[handle]? = some p) :
      Moved s (.letGo handle)
        ⟨endState ((Database.unpin p).run s.db), s.held.eraseIdx handle, s.rows⟩
  | discarded {id : PageId} :
      Moved s (.discard id) ⟨endState ((Database.drop id).run s.db), s.held, s.rows⟩
  | edited {handle : Nat} {ops : List Page.Op} {p : Database.Pin}
      (hp : s.held[handle]? = some p) :
      Moved s (.edit handle ops)
        ⟨endState ((Database.modifyPinned p (Frame.edited ops)).run s.db), s.held, s.rows⟩
  | room {path : String} {full : Bool} :
      Moved s (.room path full)
        ⟨{ s.db with disk := s.db.disk.withRoom path full }, s.held, s.rows⟩

/-- What performing an act comes to: the session has moved, or the act has failed and only the
database has changed.  Getting a page that fails leaves the pool as it was. -/
inductive Performed (s : Session) (act : Act) : EStateM.Result Error Session Unit → Prop
  | moved {s' : Session} (hm : Moved s act s') : Performed s act (.ok () s')
  | failed {e : Error} {db : Database} (hf : Failing s.db db)
      (hget : ∀ id, act = .get id → db.pool = s.db.pool) :
      Performed s act (.error e ⟨db, s.held, s.rows⟩)

namespace Performed

variable {s : Session} {act : Act}

theorem idle : Performed s act (.ok () s) := .moved (.worked s.rows .refl)

theorem moved_of {r : EStateM.Result Error Session Unit} (h : Performed s act r) :
    Moved s act (endState r) := by
  cases h with
  | moved hm => exact hm
  | failed hf hget => exact .worked s.rows hf.steps

/-- An act is an operation of the database, and then changes at most the rows. -/
theorem of_acted {α : Type} {x : DbM α} {rest : α → EStateM Error Session Unit}
    (hget : ∀ id, act ≠ .get id) (hx : Acted s.db (x.run s.db))
    (hrest : ∀ a db, ∃ rows, (rest a).run ⟨db, s.held, s.rows⟩ = .ok () ⟨db, s.held, rows⟩) :
    Performed s act ((Session.onDatabase x >>= rest).run s) := by
  have hrun : (Session.onDatabase x).run s = match x.run s.db with
    | .ok a db => .ok a ⟨db, s.held, s.rows⟩
    | .error e db => .error e ⟨db, s.held, s.rows⟩ := rfl
  rw [EStateM.run_bind, hrun]
  generalize x.run s.db = r at hx
  cases r with
  | error e db => exact .failed hx fun id h => absurd h (hget id)
  | ok a db =>
    obtain ⟨rows, hrows⟩ := hrest a db
    simp only [hrows]
    exact .moved (.worked rows hx)

end Performed

/-- What holding a page can come to: it is fetched, and held if that succeeds. -/
theorem Database.pin_run (db : Database) (id : PageId) : (pin id).run db =
    match (fetch id).run db with
    | .error e db => .error e db
    | .ok frame db =>
      .ok ⟨id, frame.serial⟩ (db.withCache (db.pool.cache.modify id Frame.pinned)) := by
  simp only [pin, EStateM.run_bind]
  cases (fetch id).run db <;> rfl

namespace Session

variable {s : Session}

theorem onDatabase_run {α : Type} (x : DbM α) (s : Session) : (onDatabase x).run s =
    match x.run s.db with
    | .ok a db => .ok a ⟨db, s.held, s.rows⟩
    | .error e db => .error e ⟨db, s.held, s.rows⟩ := rfl

theorem perform_get (s : Session) (id : PageId) : (perform (.get id)).run s =
    match (Database.fetch id).run s.db with
    | .error e db => .error e ⟨db, s.held, s.rows⟩
    | .ok frame db => .ok () ⟨db.withCache (db.pool.cache.modify id Frame.pinned),
        s.held ++ [⟨id, frame.serial⟩], s.rows⟩ := by
  simp only [perform, EStateM.run_bind, onDatabase_run, Database.pin_run]
  cases (Database.fetch id).run s.db <;> rfl

/-- **What an act does to a session.** -/
theorem perform_run (h : Sound s.db) (act : Act) : Performed s act ((perform act).run s) := by
  cases act with
  | get id =>
    have hfetch := h.fetch_run id
    rw [perform_get]
    generalize (Database.fetch id).run s.db = r at hfetch
    cases r with
    | error e db =>
      refine .failed (.quiet (hfetch.quiets_of_error h)) fun _ _ => ?_
      rcases hfetch.of_error with rfl | rfl <;> rfl
    | ok frame db => exact .moved (.pinned (hfetch.quiets_of_ok h) (hfetch.cached h))
  | letGo handle =>
    simp only [perform, EStateM.run_bind, EStateM.run_get]
    cases hp : s.held[handle]? with
    | none => exact .idle
    | some p => exact .moved (.released hp)
  | row row => exact .moved (.worked _ .refl)
  | insert table i =>
    simp only [perform, EStateM.run_bind, EStateM.run_get]
    cases s.rows[i]? with
    | none => exact .idle
    | some row => exact .of_acted (by simp) (h.insert_acted table row) fun _ _ => ⟨_, rfl⟩
  | delete i =>
    simp only [perform, EStateM.run_bind, EStateM.run_get]
    cases s.rows[i]? with
    | none => exact .idle
    | some row => exact .of_acted (by simp) (h.delete_acted row) fun _ _ => ⟨_, rfl⟩
  | flush page =>
    exact .of_acted (by simp) (.of_quiets (h.flushPage_quiets page)) fun _ _ => ⟨_, rfl⟩
  | flushAll =>
    exact .of_acted (by simp) (.of_quiets h.flushAll_quiets) fun _ _ => ⟨_, rfl⟩
  | scan table =>
    exact .of_acted (by simp) (.of_quiets (h.scanTable_quiets table)) fun _ _ => ⟨_, rfl⟩
  | discard page => exact .moved .discarded
  | append table =>
    simp only [perform, EStateM.run_bind, onDatabase_run, Database.tableOf_run]
    cases href : s.db.ref? table with
    | none => exact .failed .refl fun _ _ => rfl
    | some ref => exact .of_acted (by simp) (h.appendPage_acted href) fun _ _ => ⟨_, rfl⟩
  | edit handle ops =>
    simp only [perform, EStateM.run_bind, EStateM.run_get]
    cases hp : s.held[handle]? with
    | none => exact .idle
    | some p => exact .moved (.edited hp)
  | room path full => exact .moved .room

theorem perform_moved (h : Sound s.db) (act : Act) :
    Moved s act (endState ((perform act).run s)) := (perform_run h act).moved_of

end Session

/-! ## 3. Acts on the pool -/

namespace Database

variable {db : Database}

/-- The handle is to the cached frame of its page. -/
theorem isCached_iff {pool : Pool} {p : Pin} : isCached pool p = true ↔
    ∃ frame, pool.cache.peek? p.page = some frame ∧ frame.serial = p.serial := by
  rw [isCached]
  cases pool.cache.peek? p.page <;> simp

theorem modifyPinned_run {p : Pin} (h : isCached db.pool p = true) (change : Frame → Frame) :
    (modifyPinned p change).run db =
      .ok () (db.withCache (db.pool.cache.modify p.page change)) := by
  simp only [modifyPinned, modifyPool, EStateM.run_modify, h, if_true]
  rfl

/-- What is beside the cache changes if the frame is not in it. -/
theorem modifyPinned_run_detached {p : Pin} (h : ¬ isCached db.pool p = true)
    (change : Frame → Frame) : ∃ detached, (modifyPinned p change).run db =
      .ok () { db with pool := { db.pool with detached } } := by
  simp only [modifyPinned, modifyPool, EStateM.run_modify, if_neg h]
  exact ⟨_, rfl⟩

/-- The database has another pool, whose pages are pages of the old one. -/
def Repooled (db db' : Database) : Prop :=
  ∃ pool, db' = { db with pool } ∧ pool.cache.InOrder ∧ pool.Draws db.pool

namespace Repooled

theorem detached (h : db.pool.cache.InOrder) (detached : List Frame) :
    Repooled db { db with pool := { db.pool with detached } } :=
  ⟨_, rfl, h, fun _ frame hframe => ⟨frame, hframe, rfl⟩⟩

/-- A cached frame changes and keeps its page. -/
theorem modify (h : db.pool.cache.InOrder) (id : PageId) {change : Frame → Frame}
    (hchange : ∀ frame, (change frame).page = frame.page) :
    Repooled db (db.withCache (db.pool.cache.modify id change)) := by
  refine ⟨_, rfl, h.modify id change, fun id' frame hframe => ?_⟩
  rcases h.modify_cases hframe with ⟨rfl, old, hold, rfl⟩ | ⟨-, hframe⟩
  · exact ⟨old, hold, (hchange old).symm⟩
  · exact ⟨frame, hframe, rfl⟩

theorem trans {db₁ db₂ : Database} (h : Repooled db db₁) (h' : Repooled db₁ db₂) :
    Repooled db db₂ := by
  obtain ⟨pool₁, rfl, -, hdraws⟩ := h
  obtain ⟨pool₂, rfl, hord, hdraws'⟩ := h'
  refine ⟨pool₂, rfl, hord, fun id frame hframe => ?_⟩
  obtain ⟨frame₁, hframe₁, hpage₁⟩ := hdraws' id frame hframe
  obtain ⟨frame₂, hframe₂, hpage₂⟩ := hdraws id frame₁ hframe₁
  exact ⟨frame₂, hframe₂, hpage₂.trans hpage₁⟩

theorem inOrder {db' : Database} (h : Repooled db db') : db'.pool.cache.InOrder := by
  obtain ⟨pool, rfl, hord, -⟩ := h
  exact hord

theorem modifyPinned (h : db.pool.cache.InOrder) (p : Pin) {change : Frame → Frame}
    (hchange : ∀ frame, (change frame).page = frame.page) :
    Repooled db (endState ((Database.modifyPinned p change).run db)) := by
  by_cases hcached : isCached db.pool p = true
  · rw [modifyPinned_run hcached]
    exact .modify h p.page hchange
  · obtain ⟨detached, hrun⟩ := modifyPinned_run_detached hcached change
    rw [hrun]
    exact .detached h detached

theorem unpin (h : db.pool.cache.InOrder) (p : Pin) :
    Repooled db (endState ((Database.unpin p).run db)) := by
  have hfirst : Repooled db (endState ((Database.modifyPinned p fun frame =>
      { frame with pins := frame.pins - 1 }).run db)) := .modifyPinned h p fun _ => rfl
  simp only [Database.unpin, EStateM.run_bind]
  generalize (Database.modifyPinned p fun frame => { frame with pins := frame.pins - 1 }).run db = r
    at hfirst ⊢
  cases r with
  | error e db₁ => exact hfirst
  | ok _ db₁ => exact hfirst.trans (.detached hfirst.inOrder _)

theorem drop (h : db.pool.cache.InOrder) (id : PageId) :
    Repooled db (endState ((Database.drop id).run db)) :=
  ⟨_, rfl, h.erase id, fun _ frame hframe => ⟨frame, (h.erase_cases hframe).2, rfl⟩⟩

end Repooled

end Database

namespace Page

variable {page : Page}

theorem Valid.performAll (h : page.Valid) (ops : List Op) :
    (ops.foldl Page.perform page).Valid ∧ (ops.foldl Page.perform page).id = page.id ∧
      (ops.foldl Page.perform page).layout = page.layout := by
  induction ops generalizing page with
  | nil => exact ⟨h, rfl, rfl⟩
  | cons op ops ih =>
    obtain ⟨hv, hid, hlayout⟩ := h.perform op
    obtain ⟨hv', hid', hlayout'⟩ := ih hv
    exact ⟨hv', hid'.trans hid, hlayout'.trans hlayout⟩

/-- The image from before the changes is what it was until it is captured anew. -/
theorem before_performAll {ops : List Op} (h : Op.capture ∉ ops) (page : Page) :
    (ops.foldl perform page).before = page.before := by
  induction ops generalizing page with
  | nil => rfl
  | cons op ops ih =>
    rw [List.mem_cons, not_or] at h
    exact (ih h.2 _).trans (before_perform (Ne.symm h.1) page)

end Page

/-- A change through a handle is as it should be: at the end the page is marked as changed, and the
image from before the changes is left. -/
def Act.Marked : Act → Prop
  | .edit _ ops => Page.Op.capture ∉ ops ∧ ops.getLast? = some (.mark true)
  | _ => True

namespace Sound

variable {db db' : Database}

theorem repooled (h : Sound db) (hr : db.Repooled db') : Sound db' := by
  obtain ⟨pool, rfl, hord, hdraws⟩ := hr
  exact h.withPool hord hdraws

/-- A page that is changed through a handle stays in order. -/
theorem edited (h : Sound db) (p : Database.Pin) (ops : List Page.Op) :
    Sound (endState ((Database.modifyPinned p (Frame.edited ops)).run db)) := by
  by_cases hcached : Database.isCached db.pool p = true
  · rw [Database.modifyPinned_run hcached]
    obtain ⟨frame, hframe, -⟩ := Database.isCached_iff.mp hcached
    obtain ⟨x, hx, hadmits⟩ := h.cached hframe
    obtain ⟨hv, hid, hlayout⟩ := hadmits.valid.performAll ops
    exact h.modify hframe hx (hadmits.replace hv hid hlayout)
  · obtain ⟨detached, hrun⟩ := Database.modifyPinned_run_detached hcached (Frame.edited ops)
    rw [hrun]
    exact h.repooled (.detached h.inOrder detached)

/-- A change as it should be is a step, or one beside the cache. -/
theorem edited_cases (h : Sound db) (p : Database.Pin) {handle : Nat} {ops : List Page.Op}
    (hmarked : (Act.edit handle ops).Marked) :
    Step db (endState ((Database.modifyPinned p (Frame.edited ops)).run db)) ∨
      db.Repooled (endState ((Database.modifyPinned p (Frame.edited ops)).run db)) := by
  by_cases hcached : Database.isCached db.pool p = true
  · rw [Database.modifyPinned_run hcached]
    obtain ⟨frame, hframe, -⟩ := Database.isCached_iff.mp hcached
    obtain ⟨hv, hid, hlayout⟩ := (h.valid_page hframe).performAll ops
    obtain ⟨hcapture, hlast⟩ := hmarked
    obtain ⟨init, rfl⟩ := List.getLast?_eq_some_iff.mp hlast
    refine Or.inl (.change _ hframe hv hid hlayout (Page.before_performAll hcapture _) ?_ rfl rfl)
    rw [Frame.edited, List.foldl_append]
    rfl
  · obtain ⟨detached, hrun⟩ := Database.modifyPinned_run_detached hcached (Frame.edited ops)
    rw [hrun]
    exact Or.inr (.detached h.inOrder detached)

end Sound

/-! ## 4. Devices that fill up -/

namespace Disk

theorem withRoom_of_none {d : Disk} {path : String} (hf : d.file? path = none) (full : Bool) :
    d.withRoom path full = d := by
  simp only [withRoom, hf]

theorem withRoom_of_endless {d : Disk} {path : String} {f : File} (hf : d.file? path = some f)
    (hend : f.endless = true) (full : Bool) : d.withRoom path full = d := by
  simp only [withRoom, hf, if_pos hend]

theorem withRoom_of_some {d : Disk} {path : String} {f : File} (hf : d.file? path = some f)
    (hend : ¬ f.endless = true) (full : Bool) :
    d.withRoom path full = ⟨d.files.insert path { f with full }⟩ := by
  simp only [withRoom, hf, if_neg hend]

/-- Every file is as it was, but for the room on its device if it is the one, and ends. -/
theorem file?_withRoom (d : Disk) (path : String) (full : Bool) (p : String) :
    (d.withRoom path full).file? p = (d.file? p).map fun f =>
      if p = path ∧ ¬ f.endless = true then { f with full } else f := by
  have hsame : (∀ f, d.file? p = some f → ¬ (p = path ∧ ¬ f.endless = true)) →
      d.file? p = (d.file? p).map fun f =>
        if p = path ∧ ¬ f.endless = true then { f with full } else f := by
    intro hno
    cases hp : d.file? p with
    | none => rfl
    | some f => rw [Option.map_some, if_neg (hno f hp)]
  cases hf : d.file? path with
  | none =>
    rw [withRoom_of_none hf]
    exact hsame fun f hp h => absurd (hf.symm.trans (h.1 ▸ hp)) (by simp)
  | some f =>
    by_cases hend : f.endless = true
    · rw [withRoom_of_endless hf hend]
      refine hsame fun g hp h => h.2 ?_
      obtain rfl : f = g := Option.some.inj (hf.symm.trans (h.1 ▸ hp))
      exact hend
    · rw [withRoom_of_some hf hend, file?_insert]
      by_cases hp : p = path
      · rw [if_pos hp, hp, hf, Option.map_some, if_pos ⟨rfl, hend⟩]
      · rw [if_neg hp]
        exact hsame fun g _ h => hp h.1

/-- Room does not show when a file is read. -/
theorem read_withRoom (d : Disk) (path : String) (full : Bool) :
    (d.withRoom path full).read = d.read := by
  funext p offset count
  rw [read, read, file?_withRoom]
  cases d.file? p with
  | none => rfl
  | some f =>
    simp only [Option.map_some]
    split <;> rfl

theorem endless_withRoom (d : Disk) (path : String) (full : Bool) (p : String) :
    (d.withRoom path full).Endless p ↔ d.Endless p := by
  rw [Endless, Endless, file?_withRoom]
  cases d.file? p with
  | none => simp
  | some f =>
    simp only [Option.map_some, Option.some.injEq, exists_eq_left']
    split <;> rfl

theorem Carries.withRoom {d : Disk} {p : String} {size count : Nat} (h : d.Carries p size count)
    (path : String) (full : Bool) : (d.withRoom path full).Carries p size count := by
  obtain ⟨f, hf, hdevice, hle, hlt⟩ := h
  refine ⟨_, by rw [file?_withRoom, hf, Option.map_some], ?_, ?_, ?_⟩
  · split
    · rename_i hno
      exact fun hyes => absurd hyes hno.2
    · exact hdevice
  · split <;> exact hle
  · split <;> exact hlt

end Disk

namespace Database

theorem image?_withRoom (db : Database) (path : String) (full : Bool) :
    ({ db with disk := db.disk.withRoom path full } : Database).image? = db.image? := by
  funext id
  change (db.extent? id.table).bind _ = (db.extent? id.table).bind _
  simp only [Extent.read, Disk.read_withRoom]

theorem stored?_withRoom (db : Database) (path : String) (full : Bool) :
    ({ db with disk := db.disk.withRoom path full } : Database).stored? = db.stored? := by
  funext id
  exact stored?_congr rfl (congrFun (image?_withRoom db path full) id)

end Database

theorem Sound.withRoom {db : Database} (h : Sound db) (path : String) (full : Bool) :
    Sound { db with disk := db.disk.withRoom path full } where
  registered := h.registered
  carried := fun hx => (h.carried hx).withRoom path full
  apart := h.apart
  inOrder := h.inOrder
  cached := by
    intro id frame hframe
    obtain ⟨x, hx, hadmits⟩ := h.cached hframe
    exact ⟨x, hx, hadmits.valid, hadmits.id_eq, hadmits.layout_eq,
      hadmits.within.imp_right (Disk.endless_withRoom _ path full _).mpr⟩

/-! ## 5. Sessions are sound -/

namespace Database

/-- Each table has its own file, and files that read on endlessly take no writes. -/
structure Separate (db : Database) : Prop where
  own : ∀ {a b : TableId} {f g : TableFile}, db.table? a = some f → db.table? b = some g →
    f.path = g.path → a = b
  device : ∀ {id : TableId} {f : TableFile} {file : File}, db.table? id = some f →
    db.disk.file? f.path = some file → file.endless = true → file.full = true

/-- Tables that have been opened are sound, as long as nothing is cached. -/
theorem Separate.sound {db : Database} (hs : db.Separate) (ho : db.Opened)
    (hempty : ∀ id, db.pool.cache.peek? id = none) (hord : db.pool.cache.InOrder) : Sound db where
  registered := by
    intro id ref href
    rw [ref?, Option.map_eq_some_iff] at href
    obtain ⟨entry, hentry, rfl⟩ := href
    obtain ⟨f, -, hf, hid, -⟩ := ho id entry hentry
    exact ⟨f, hf, hid⟩
  carried := by
    intro id x hx
    obtain ⟨f, hf, rfl⟩ := exists_table hx
    have htable := hf
    rw [table?, Option.bind_eq_some_iff] at hf
    obtain ⟨entry, hentry, hf⟩ := hf
    obtain ⟨f', file, hf', -, hfile, hcount⟩ := ho id entry hentry
    obtain rfl : f = f' := Option.some.inj (hf.symm.trans hf')
    have hsize := f.layout.pageSize_pos
    refine ⟨file, hfile, hs.device htable hfile, ?_, ?_⟩
    · simp only [hcount]
      exact Nat.div_mul_le_self _ _
    · simp only [hcount]
      rw [Nat.mul_comm]
      exact Nat.lt_mul_div_succ _ hsize
  apart := by
    intro a b x y hx hy hpath
    obtain ⟨f, hf, rfl⟩ := exists_table hx
    obtain ⟨g, hg, rfl⟩ := exists_table hy
    exact hs.own hf hg hpath
  inOrder := hord
  cached := fun {id frame} hframe => absurd ((hempty id).symm.trans hframe) (by simp)

theorem Ordinary.separate {db : Database} (h : db.Ordinary) : db.Separate where
  own := h.own
  device := by
    intro id f file hf hfile hend
    obtain ⟨file', hfile', -, hno⟩ := h.regular hf
    obtain rfl : file = file' := Option.some.inj (hfile.symm.trans hfile')
    exact absurd (hno.symm.trans hend) (by simp)

/-- Openings do not touch the pool. -/
theorem pool_openAll (db : Database) (openings : List Opening) :
    (db.openAll openings).pool = db.pool := by
  have h : db.openAll openings = { db.openAll openings with pool := db.pool } :=
    openAll_withPool db openings db.pool
  rw [h]

/-- Of tables that have been opened, no page is cached. -/
theorem peek?_openAll {disk : Disk} {pageSize capacity : Nat} {db : Database}
    (h : onDisk disk pageSize capacity = .ok db) (openings : List Opening) (id : PageId) :
    (db.openAll openings).pool.cache.peek? id = none := by
  rw [onDisk_eq disk pageSize (capacity_pos_of_onDisk h), Except.ok.injEq] at h
  rw [pool_openAll, ← h]
  exact Lru.peek?_empty capacity id

/-- **Tables that have been opened are sound**, and none of their pages is cached. -/
theorem sound_openAll {disk : Disk} {pageSize capacity : Nat} {db : Database}
    (h : onDisk disk pageSize capacity = .ok db) {openings : List Opening}
    (hs : (db.openAll openings).Separate) : Sound (db.openAll openings) ∧
      ∀ id, (db.openAll openings).pool.cache.peek? id = none := by
  have hempty := peek?_openAll h openings
  have hcapacity := capacity_pos_of_onDisk h
  rw [onDisk_eq disk pageSize hcapacity, Except.ok.injEq] at h
  have hopened : (db.openAll openings).Opened := by
    refine Opened.openAll (fun id entry hentry => ?_) openings
    rw [← h] at hentry
    exact absurd hentry (by simp [Catalog.empty])
  refine ⟨hs.sound hopened hempty ?_, hempty⟩
  rw [pool_openAll, ← h]
  exact Lru.inOrder_empty hcapacity

end Database

namespace Moved

variable {s s' : Session} {act : Act}

/-- **An act** keeps a session sound. -/
theorem sound (hm : Moved s act s') (h : Sound s.db) : Sound s'.db := by
  cases hm with
  | worked rows hs => exact h.steps hs
  | @pinned id db frame hq hframe =>
    exact (h.quiets hq).repooled (.modify (h.quiets hq).inOrder id fun _ => rfl)
  | @released handle p hp => exact h.repooled (.unpin h.inOrder p)
  | @discarded id => exact h.repooled (.drop h.inOrder id)
  | @edited handle ops p hp => exact h.edited p ops
  | @room path full => exact h.withRoom path full

end Moved

namespace Session

/-- **Every session is sound.** -/
theorem sound_after {s : Session} (h : Sound s.db) (acts : List Act) :
    Sound (s.after acts).db := by
  induction acts generalizing s with
  | nil => exact h
  | cons act acts ih => exact ih ((perform_moved h act).sound h)

/-- What every act of a kind keeps is so behind any number of them.  By induction on the acts; each
of them finds a sound database. -/
theorem after_induction (P : Session → Prop) (Ok : Act → Prop)
    (step : ∀ s s' act, Sound s.db → Ok act → Moved s act s' → P s → P s') {s : Session}
    (h : Sound s.db) (hs : P s) {acts : List Act} (hacts : ∀ act ∈ acts, Ok act) :
    P (s.after acts) := by
  induction acts generalizing s with
  | nil => exact hs
  | cons act acts ih =>
    have hm := perform_moved h act
    exact ih (hm.sound h) (step s _ act h (hacts act List.mem_cons_self) hm hs) fun act' hact' =>
      hacts act' (List.mem_cons_of_mem _ hact')

end Session

/-! ## 6. A small table

One page of eight bytes, of which the only slot is in use. -/

namespace Sample

def schema : Schema := ⟨[⟨"n", .int⟩]⟩

def layout : Layout := ⟨schema, 8, 1, by decide, by decide, by decide, by decide⟩

/-- The row of the page, before it had a place. -/
def row : Row := ⟨schema, [.int 7], none, rfl⟩

def disk : Disk :=
  ⟨(∅ : Std.TreeMap String File).insert "t" ⟨[1, 7, 0, 0, 0, 0, 0, 0], false, false⟩⟩

def opening : Opening := ⟨"t", "t", schema⟩

def database (capacity : Nat) : Database := ⟨disk, #[], .empty 8, ⟨Lru.empty capacity, [], 0⟩⟩

/-- The table is open, and nothing is cached. -/
def opened (capacity : Nat) : Database := (database capacity).withTable "t" layout "t" disk

/-- The table can be opened in any file `t` that there is. -/
theorem opened_of_create {d : Disk} (hcreate : d.create "t" = .ok ("t", d)) (capacity : Nat) :
    Database.opened { database capacity with disk := d } opening =
      .ok (Database.withTable { database capacity with disk := d } "t" layout "t" d) := by
  have hlayout : Layout.make schema 8 = .ok layout := by cbv
  have hname : ¬ (database capacity).catalog.ids.contains "t" = true := by
    simp [database, Catalog.empty]
  have hsize : (database capacity).catalog.pageSize = 8 := rfl
  simp only [Database.opened, opening, if_neg hname, hsize, hlayout, hcreate]

theorem opened_eq (capacity : Nat) : (database capacity).opened opening = .ok (opened capacity) :=
  opened_of_create (by cbv) capacity

theorem openAll_eq (capacity : Nat) : (database capacity).openAll [opening] = opened capacity := by
  rw [Database.openAll_cons, opened_eq]
  rfl

theorem ordinary (capacity : Nat) : ((database capacity).openAll [opening]).Ordinary := by
  rw [openAll_eq]
  refine Database.ordinary_withTable rfl rfl rfl fun number hnumber => ?_
  have hcount : disk.size "t" / 8 = 1 := by cbv
  obtain rfl : number = 0 := Nat.lt_one_iff.mp (hcount ▸ hnumber)
  exact ⟨[1, 7, 0, 0, 0, 0, 0, 0], _, rfl, by cbv⟩

end Sample
end RowStore
