/-
# Operations with their journals

Each operation that can change a file is here a second time, with its journal, and is put together
as the operation is.  Without the journal it is the operation: behind each of them a lemma says so
(`run_fetch`, `run_insert`, and for acts `run_perform`).

What is done with a database is a list of deeds: acts of a session, and pages that are written to
their places directly.  `Session.journal` has the changes that deeds make to files.
-/
import RowStore.Proofs.Database.Journal
import RowStore.Proofs.Database.Sessions

namespace RowStore

namespace Journaled

variable {σ α : Type}

/-! ## 1. Pages and files -/

/-- Writes a page to its place in the table. -/
def writePage (table : TableId) (ref : TableRef) (page : Page) : Journaled Database Unit :=
  entering (fun _ => ⟨table, .write page⟩) (Database.writePage ref page)

def appendPage (ref : TableRef) : Journaled Database PageId :=
  entering (fun id => ⟨id.table, .append⟩) (Database.appendPage ref)

/-- Takes back an appended page, if it is still the last one. -/
def removeLastPage (ref : TableRef) (id : PageId) : Journaled Database Unit := do
  let f ← quietly (Database.file ref)
  if f.pageCount = id.number + 1 then
    entering (fun _ => ⟨f.id, .cut id.number⟩) (Database.removeLastPage ref id)
  else return

/-- Writes a cached page to disk if it is dirty. -/
def writeBack (id : PageId) : Journaled Database Unit := do
  let db ← quietly get
  match db.pool.cache.peek? id with
  | none => return
  | some frame =>
    if frame.page.dirty then
      entering (fun _ => ⟨id.table, .write frame.page⟩) (Database.writeBack id)
    else return

@[simp] theorem run_writePage (table : TableId) (ref : TableRef) (page : Page) :
    (writePage table ref page).run = Database.writePage ref page := rfl

@[simp] theorem run_appendPage (ref : TableRef) :
    (appendPage ref).run = Database.appendPage ref := rfl

@[simp] theorem run_removeLastPage (ref : TableRef) (id : PageId) :
    (removeLastPage ref id).run = Database.removeLastPage ref id := by
  refine funext fun db => ?_
  change (removeLastPage ref id).run.run db = (Database.removeLastPage ref id).run db
  rw [removeLastPage, run_bind, EStateM.run_bind, run_quietly]
  cases hf : db.files[ref.index]? with
  | none =>
    have hfile : (Database.file ref).run db = .error (.noSuchTable ref.index) db := by
      simp only [Database.file, EStateM.run_bind, EStateM.run_get, hf]
      rfl
    simp only [hfile, Database.removeLastPage, EStateM.run_bind]
  | some f =>
    have hfile : (Database.file ref).run db = .ok f db := by
      simp only [Database.file, EStateM.run_bind, EStateM.run_get, hf]
      rfl
    by_cases hlast : f.pageCount = id.number + 1
    · simp only [hfile, if_pos hlast, run_entering]
    · simp only [hfile, if_neg hlast, run_pure, Database.removeLastPage, EStateM.run_bind]

@[simp] theorem run_writeBack (id : PageId) : (writeBack id).run = Database.writeBack id := by
  refine funext fun db => ?_
  change (writeBack id).run.run db = (Database.writeBack id).run db
  rw [writeBack, run_bind, EStateM.run_bind, run_quietly, EStateM.run_get]
  cases hframe : db.pool.cache.peek? id with
  | none => simp only [Database.writeBack, EStateM.run_bind, EStateM.run_get, hframe, run_pure]
  | some frame =>
    cases hdirty : frame.page.dirty with
    | false =>
      simp only [Database.writeBack, EStateM.run_bind, EStateM.run_get, hframe, hdirty, run_pure,
        Bool.false_eq_true, if_false]
    | true => simp only [hframe, hdirty, if_true, run_entering]

section WriteBack

variable {db : Database} {id : PageId} {frame : Frame}

/-- Nothing is written of a page that is clean or not cached. -/
theorem journal_writeBack_idle
    (hclean : ∀ frame, db.pool.cache.peek? id = some frame → frame.page.dirty = false) :
    (writeBack id).journal db = [] := by
  rw [writeBack, journal_get_bind]
  cases hframe : db.pool.cache.peek? id with
  | none => rfl
  | some frame =>
    simp only [hclean frame hframe, Bool.false_eq_true, if_false]
    rfl

theorem journal_writeBack_dirty (hframe : db.pool.cache.peek? id = some frame)
    (hdirty : frame.page.dirty = true) : (writeBack id).journal db =
      (entering (fun _ => ⟨id.table, .write frame.page⟩) (Database.writeBack id)).journal db := by
  rw [writeBack, journal_get_bind]
  simp only [hframe, hdirty, if_true]

end WriteBack

/-! ## 2. The pool -/

def flushPage (id : PageId) : Journaled Database Bool := do
  let db ← quietly get
  if db.pool.cache.contains id then
    writeBack id
    return true
  else return false

@[simp] theorem run_flushPage (id : PageId) : (flushPage id).run = Database.flushPage id := by
  refine bind_congr fun db => ?_
  dsimp only
  rw [run_ite, run_bind, run_writeBack]
  rfl

def writeBackAll : List PageId → Journaled Database Unit
  | [] => return
  | id :: ids => do
    writeBack id
    writeBackAll ids

@[simp] theorem run_writeBackAll (ids : List PageId) :
    (writeBackAll ids).run = Database.writeBackAll ids := by
  induction ids with
  | nil => rfl
  | cons id ids ih =>
    rw [writeBackAll, Database.writeBackAll, run_bind, run_writeBack]
    exact bind_congr fun _ => ih

def flushAll : Journaled Database Unit := do
  let db ← quietly get
  writeBackAll (db.pool.cache.toList.map (·.1))

@[simp] theorem run_flushAll : flushAll.run = Database.flushAll :=
  bind_congr fun _ => run_writeBackAll _

/-- The victim leaves the cache, if there is one. -/
def evict : Option PageId → Journaled Database Unit
  | none => return
  | some victim => do
    writeBack victim
    quietly (Database.drop victim)

def fetchMissing (id : PageId) : Journaled Database Frame := do
  let victim ← quietly Database.chooseVictim
  let ref ← quietly (Database.tableOf id.table)
  let page ← quietly (Database.readPage ref id.number)
  evict victim
  quietly (Database.load id page)

@[simp] theorem run_fetchMissing (id : PageId) :
    (fetchMissing id).run = Database.fetchMissing id := by
  refine bind_congr fun victim => bind_congr fun ref => bind_congr fun page => ?_
  cases victim with
  | none => rfl
  | some victim =>
    simp only [evict, run_bind, run_writeBack, run_quietly, bind_assoc]

def fetch (id : PageId) : Journaled Database Frame := do
  let db ← quietly get
  match db.pool.cache.peek? id with
  | some frame =>
    quietly (Database.modifyPool fun pool => { pool with cache := pool.cache.touch id })
    return frame
  | none => fetchMissing id

@[simp] theorem run_fetch (id : PageId) : (fetch id).run = Database.fetch id := by
  refine bind_congr fun db => ?_
  dsimp only
  cases db.pool.cache.peek? id with
  | none => exact run_fetchMissing id
  | some frame => rfl

def pin (id : PageId) : Journaled Database Database.Pin := do
  let frame ← fetch id
  quietly (Database.modifyPool fun pool =>
    { pool with cache := pool.cache.modify id Frame.pinned })
  return ⟨id, frame.serial⟩

@[simp] theorem run_pin (id : PageId) : (pin id).run = Database.pin id := by
  rw [pin, Database.pin, run_bind, run_fetch]
  rfl

/-! ## 3. Rows -/

def placeOnFirst (table : TableId) (row : Row) :
    List Nat → Journaled Database (Option (PageId × Row))
  | [] => return none
  | number :: numbers => do
    let id : PageId := ⟨table, number⟩
    let frame ← fetch id
    if 0 < frame.page.freeCount then
      let row ← quietly (Database.placeOn id frame.page row)
      return some (id, row)
    else placeOnFirst table row numbers

@[simp] theorem run_placeOnFirst (table : TableId) (row : Row) (numbers : List Nat) :
    (placeOnFirst table row numbers).run = Database.placeOnFirst table row numbers := by
  induction numbers with
  | nil => rfl
  | cons number numbers ih =>
    rw [placeOnFirst, Database.placeOnFirst, run_bind, run_fetch]
    refine bind_congr fun frame => ?_
    split
    · rfl
    · exact ih

def fetchAndPlace (id : PageId) (row : Row) : Journaled Database (PageId × Row) := do
  let frame ← fetch id
  quietly do
    let row ← Database.placeOn id frame.page row
    return (id, row)

@[simp] theorem run_fetchAndPlace (id : PageId) (row : Row) :
    (fetchAndPlace id row).run = Database.fetchAndPlace id row := by
  rw [fetchAndPlace, Database.fetchAndPlace, run_bind, run_fetch]
  rfl

def takeBack (ref : TableRef) (id : PageId) (e : Error) : Journaled Database (PageId × Row) := do
  quietly (Database.drop id)
  (removeLastPage ref id).orElse fun _ => return
  quietly (throw e)

@[simp] theorem run_takeBack (ref : TableRef) (id : PageId) (e : Error) :
    (takeBack ref id e).run = Database.takeBack ref id e := by
  rw [takeBack, Database.takeBack]
  refine bind_congr fun _ => ?_
  rw [run_bind, run_orElse, run_removeLastPage]
  rfl

def placeOnNew (ref : TableRef) (row : Row) : Journaled Database (PageId × Row) := do
  let id ← appendPage ref
  (fetchAndPlace id row).orElse fun e => takeBack ref id e

@[simp] theorem run_placeOnNew (ref : TableRef) (row : Row) :
    (placeOnNew ref row).run = Database.placeOnNew ref row := by
  refine funext fun db => ?_
  change ((placeOnNew ref row).run).run db = (Database.placeOnNew ref row).run db
  rw [Database.placeOnNew_run, placeOnNew, run_bind, EStateM.run_bind, run_appendPage]
  cases (Database.appendPage ref).run db with
  | error e db₁ => rfl
  | ok id db₁ =>
    simp only [run_orElse, run_fetchAndPlace, run_takeBack]
    cases hplace : (Database.fetchAndPlace id row).run db₁ with
    | ok placed db₂ => exact run_tryCatch_ok hplace
    | error e db₂ => exact run_tryCatch_error hplace

def insertInFile (ref : TableRef) (row : Row) : Journaled Database (PageId × Row) := do
  let f ← quietly (Database.file ref)
  if row.schema ≠ f.layout.schema then quietly (throw (.schema (.notOfTable row.values f.id)))
  else
    let placed? ← placeOnFirst f.id row (List.range f.pageCount)
    match placed? with
    | some placed => return placed
    | none => placeOnNew ref row

@[simp] theorem run_insertInFile (ref : TableRef) (row : Row) :
    (insertInFile ref row).run = Database.insertInFile ref row := by
  refine bind_congr fun f => ?_
  dsimp only
  split
  · rfl
  · rw [run_bind, run_placeOnFirst]
    refine bind_congr fun placed? => ?_
    cases placed? with
    | none => exact run_placeOnNew ref row
    | some placed => rfl

def insert (table : TableId) (row : Row) : Journaled Database (PageId × Row) := do
  let ref ← quietly (Database.tableOf table)
  insertInFile ref row

@[simp] theorem run_insert (table : TableId) (row : Row) :
    (insert table row).run = Database.insert table row :=
  bind_congr fun _ => run_insertInFile _ _

def deleteInFile (ref : TableRef) (row : Row) : Journaled Database (PageId × Row) :=
  match row.place with
  | none => quietly (throw .notStored)
  | some place => do
    let id := place.page
    let f ← quietly (Database.file ref)
    if id.table ≠ f.id then quietly (throw (.notOnPage id))
    else if f.pageCount ≤ id.number then quietly (throw (.noSuchPage id))
    else
      let frame ← fetch id
      let (page, row) ← quietly (Database.attempt (frame.page.delete row))
      quietly (Database.modifyPage id fun _ => page.mark true)
      return (id, row)

@[simp] theorem run_deleteInFile (ref : TableRef) (row : Row) :
    (deleteInFile ref row).run = Database.deleteInFile ref row := by
  rw [deleteInFile, Database.deleteInFile]
  cases row.place with
  | none => rfl
  | some place =>
    refine bind_congr fun f => ?_
    dsimp only
    split
    · rfl
    · split
      · rfl
      · rw [run_bind, run_fetch]
        rfl

def delete (row : Row) : Journaled Database (PageId × Row) :=
  match row.place with
  | none => quietly (throw .notStored)
  | some place => do
    let ref ← quietly (Database.tableOf place.page.table)
    deleteInFile ref row

@[simp] theorem run_delete (row : Row) : (delete row).run = Database.delete row := by
  rw [delete, Database.delete]
  cases row.place with
  | none => rfl
  | some place => exact bind_congr fun ref => run_deleteInFile ref row

/-! ## 4. Scans -/

/-- A step on the database alone. -/
def onDatabase (x : Journaled Database α) : Journaled (σ × Database) α :=
  x.within StreamM.onDatabase Prod.snd

theorem onDatabase_upholds {Fit : σ → Prop} {Inv : Journal → Database → Prop} {Post : α → Prop}
    {x : Journaled Database α} (hx : Upholds Inv Post x) :
    Upholds (fun journal => StreamM.Both Fit (Inv journal)) Post (onDatabase x) :=
  fun old s hs => StreamM.onDatabase_ends hs.1 (hx old s.2 hs.2)

/-- A stream is run from a state of its own. -/
def runFrom (x : Journaled (σ × Database) α) (state : σ) : Journaled Database α :=
  x.within (StreamM.runFrom · state) fun db => (state, db)

theorem runFrom_upholds {Fit : σ → Prop} {Inv : Journal → Database → Prop} {Post : α → Prop}
    {x : Journaled (σ × Database) α}
    (hx : Upholds (fun journal => StreamM.Both Fit (Inv journal)) Post x) {state : σ}
    (hstate : Fit state) : Upholds Inv Post (x.runFrom state) :=
  fun old db hdb => StreamM.runFrom_ends (hx old (state, db) ⟨hstate, hdb⟩)

def advance (ref : TableRef) : Nat → Scan.Cursor → Journaled (Scan.State × Database) (Option Row)
  | 0, _ => return none
  | fuel + 1, cursor =>
    match cursor.rows with
    | row :: rest => do
      quietly (StreamM.setState (some { cursor with rows := rest }))
      return some row
    | [] => do
      let f ← quietly (StreamM.onDatabase (Database.file ref))
      if f.pageCount ≤ cursor.nextPage then return none
      else
        let frame ← onDatabase (fetch ⟨f.id, cursor.nextPage⟩)
        let cursor := ⟨cursor.nextPage + 1, frame.page.rows⟩
        quietly (StreamM.setState (some cursor))
        advance ref fuel cursor

@[simp] theorem run_advance (ref : TableRef) (fuel : Nat) (cursor : Scan.Cursor) :
    (advance ref fuel cursor).run = Scan.advance ref fuel cursor := by
  induction fuel generalizing cursor with
  | zero => rfl
  | succ fuel ih =>
    rw [advance, Scan.advance]
    cases cursor.rows with
    | cons row rest => rfl
    | nil =>
      refine bind_congr fun f => ?_
      dsimp only
      split
      · rfl
      · rw [run_bind, onDatabase, run_within, run_fetch]
        exact bind_congr fun frame => bind_congr fun _ => ih _

def next (ref : TableRef) : Journaled (Scan.State × Database) (Option Row) := do
  let state ← quietly StreamM.getState
  match state with
  | none => quietly (throw .notOpen)
  | some cursor =>
    let db ← quietly StreamM.getDatabase
    advance ref (Scan.pageBound db ref + 1) cursor

@[simp] theorem run_next (ref : TableRef) : (next ref).run = Scan.next ref := by
  refine bind_congr fun state => ?_
  cases state with
  | none => rfl
  | some cursor => exact bind_congr fun _ => run_advance ref _ cursor

/-- Takes up to `count` rows of a scan. -/
def take (ref : TableRef) : (count : Nat) → Journaled (Scan.State × Database) (List Row)
  | 0 => return []
  | count + 1 => do
    let row? ← next ref
    match row? with
    | none => return []
    | some row =>
      let rows ← take ref count
      return row :: rows

@[simp] theorem run_take (ref : TableRef) (schema : Schema) (count : Nat) :
    (take ref count).run = (Scan.stream ref schema).take count := by
  induction count with
  | zero => rfl
  | succ count ih =>
    rw [take, RowStream.take, run_bind, run_next]
    refine bind_congr fun row? => ?_
    cases row? with
    | none => rfl
    | some row => exact congrArg (· >>= _) ih

/-- Takes all the rows of a stream, whose rows are taken as `take` does. -/
def drain (s : RowStream σ) (take : Nat → Journaled (σ × Database) (List Row)) :
    Journaled (σ × Database) (List Row) := do
  quietly s.start
  let (state, db) ← quietly get
  take (s.bound state db + 1)

theorem run_drain {s : RowStream σ} {take : Nat → Journaled (σ × Database) (List Row)}
    (htake : ∀ count, (take count).run = s.take count) : (drain s take).run = s.drain :=
  bind_congr fun _ => bind_congr fun _ => htake _

def scanTable (table : TableId) : Journaled Database (List Row) := do
  let ref ← quietly (Database.tableOf table)
  let f ← quietly (Database.file ref)
  (drain (Scan.stream ref f.layout.schema) (take ref)).runFrom none

@[simp] theorem run_scanTable (table : TableId) :
    (scanTable table).run = Database.scanTable table :=
  bind_congr fun ref => bind_congr fun f =>
    congrArg (StreamM.runFrom · none) (run_drain (run_take ref f.layout.schema))

/-! ## 5. Acts and deeds -/

/-- A step on the database of a session alone. -/
def onSession (x : Journaled Database α) : Journaled Session α :=
  x.within Session.onDatabase Session.db

@[simp] theorem run_onSession (x : Journaled Database α) :
    (onSession x).run = Session.onDatabase x.run := rfl

theorem onSession_leads {Inv Inv' : Journal → Database → Prop} {Post : α → Prop}
    {x : Journaled Database α} (hx : Leads Inv Inv' Post x) :
    Leads (fun journal s => Inv journal s.db) (fun journal s => Inv' journal s.db) Post
      (onSession x) := by
  intro old s hs
  have hend := hx old s.db hs
  change Ends _ Post ((Session.onDatabase x.run).run s)
  rw [Session.onDatabase_run]
  generalize x.run.run s.db = r at hend
  cases r with
  | error e db => exact hend
  | ok a db => exact hend

/-- What an act does, with the changes that it makes to files. -/
def perform : Act → Journaled Session Unit
  | .get page => do
    let p ← onSession (pin page)
    quietly (modify fun s => { s with held := s.held ++ [p] })
  | .letGo handle => do
    let s ← quietly get
    match s.held[handle]? with
    | none => return
    | some p =>
      onSession (quietly (Database.unpin p))
      quietly (modify fun s => { s with held := s.held.eraseIdx handle })
  | .row row => quietly (modify fun s => { s with rows := s.rows ++ [row] })
  | .insert table i => do
    let s ← quietly get
    match s.rows[i]? with
    | none => return
    | some row =>
      let placed ← onSession (insert table row)
      quietly (modify fun s => { s with rows := s.rows.set i placed.2 })
  | .delete i => do
    let s ← quietly get
    match s.rows[i]? with
    | none => return
    | some row =>
      let freed ← onSession (delete row)
      quietly (modify fun s => { s with rows := s.rows.set i freed.2 })
  | .flush page => do
    let _ ← onSession (flushPage page)
  | .flushAll => do
    let _ ← onSession flushAll
  | .scan table => do
    let _ ← onSession (scanTable table)
  | .discard page => do
    let _ ← onSession (quietly (Database.discard page))
  | .append table => do
    let ref ← onSession (quietly (Database.tableOf table))
    let _ ← onSession (appendPage ref)
  | .edit handle ops => do
    let s ← quietly get
    match s.held[handle]? with
    | none => return
    | some p => onSession (quietly (Database.modifyPinned p (Frame.edited ops)))
  | .room path full => quietly (modify fun s =>
    { s with db := { s.db with disk := s.db.disk.withRoom path full } })

/-- **Without its journal** it is the act. -/
theorem run_perform (act : Act) : (perform act).run = Session.perform act := by
  cases act with
  | get page => rw [perform, run_bind, run_onSession, run_pin, Session.perform]; rfl
  | letGo handle =>
    refine bind_congr fun s => ?_
    dsimp only
    cases s.held[handle]? with
    | none => rfl
    | some p => rfl
  | row row => rfl
  | insert table i =>
    refine bind_congr fun s => ?_
    dsimp only
    cases s.rows[i]? with
    | none => rfl
    | some row => rw [run_bind, run_onSession, run_insert]; rfl
  | delete i =>
    refine bind_congr fun s => ?_
    dsimp only
    cases s.rows[i]? with
    | none => rfl
    | some row => rw [run_bind, run_onSession, run_delete]; rfl
  | flush page => rw [perform, run_bind, run_onSession, run_flushPage, Session.perform]; rfl
  | flushAll => rw [perform, run_bind, run_onSession, run_flushAll, Session.perform]; rfl
  | scan table => rw [perform, run_bind, run_onSession, run_scanTable, Session.perform]; rfl
  | discard page => rfl
  | append table => rfl
  | edit handle ops =>
    refine bind_congr fun s => ?_
    dsimp only
    cases s.held[handle]? with
    | none => rfl
    | some p => rfl
  | room path full => rfl

end Journaled

/-- What is done with a database. -/
inductive Deed where
  | act (act : Act)
  /-- A page is written to its place in a table, past the cache. -/
  | write (table : TableId) (page : Page)

namespace Session

def performDeed : Deed → EStateM Error Session Unit
  | .act act => perform act
  | .write table page => do
    let ref ← onDatabase (Database.tableOf table)
    onDatabase (Database.writePage ref page)

/-- The session behind deeds, whether they succeed or fail. -/
def afterDeeds (s : Session) : List Deed → Session
  | [] => s
  | deed :: deeds => (endState ((performDeed deed).run s)).afterDeeds deeds

end Session

/-- What a deed does, with the changes that it makes to files. -/
def Journaled.performDeed : Deed → Journaled Session Unit
  | .act act => perform act
  | .write table page => do
    let ref ← onSession (quietly (Database.tableOf table))
    onSession (writePage table ref page)

/-- **Without its journal** it is the deed. -/
theorem Journaled.run_performDeed (deed : Deed) :
    (performDeed deed).run = Session.performDeed deed := by
  cases deed with
  | act act => exact run_perform act
  | write table page =>
    refine bind_congr fun ref => ?_
    rw [run_onSession, run_writePage]

/-- The changes that deeds make to files, one after another, whether the deeds succeed or fail. -/
def Session.journal (s : Session) : List Deed → Journal
  | [] => []
  | deed :: deeds => (Journaled.performDeed deed).journal s ++
      (endState ((performDeed deed).run s)).journal deeds

/-- **By induction on the deeds**: a condition on the session and the journal up to there is kept if
every deed keeps it. -/
theorem Session.afterDeeds_induction {P : Journal → Session → Prop} {deeds : List Deed}
    (hstep : ∀ journal s, ∀ deed ∈ deeds, P journal s →
      P (journal ++ (Journaled.performDeed deed).journal s) (endState ((performDeed deed).run s)))
    {journal : Journal} {s : Session} (h : P journal s) :
    P (journal ++ s.journal deeds) (s.afterDeeds deeds) := by
  induction deeds generalizing s journal with
  | nil =>
    rw [Session.journal, List.append_nil]
    exact h
  | cons deed deeds ih =>
    have hdeed := hstep journal s deed List.mem_cons_self h
    have hrest := ih (fun journal s deed hmem => hstep journal s deed (List.mem_cons_of_mem _ hmem))
      hdeed
    rwa [List.append_assoc] at hrest

end RowStore
