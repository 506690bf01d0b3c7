/-
# The pool of cached pages

`fetch` gives a page from the cache, and reads it first if it is not there.  In a full cache the
least recently used page that nobody holds makes room; it is written back before it goes if it is
dirty.  The order of these steps settles which error wins, and that a failing fetch leaves the
cache as it was:

1. a victim is chosen, and there must be one;
2. the table must be in the catalog;
3. the page is read;
4. the victim is written back;
5. the victim leaves and the page enters.

A page that is written back is clean, and the image that was written becomes the one before its
next changes.
-/
import RowStore.Database.Catalog
import RowStore.Database.PageIo

namespace RowStore
namespace Database

/-! ## 1. Writing back -/

/-- Writes a cached page to disk if it is dirty. -/
def writeBack (id : PageId) : DbM Unit := do
  match (← get).pool.cache.peek? id with
  | none => return
  | some frame =>
    if frame.page.dirty then
      let ref ← tableOf id.table
      writePage ref frame.page
      modifyPool fun pool => { pool with cache := pool.cache.modify id fun frame =>
        { frame with page := (frame.page.mark false).capture } }

/-- Writes the page to disk if it is cached; tells whether it is. -/
def flushPage (id : PageId) : DbM Bool := do
  if (← get).pool.cache.contains id then
    writeBack id
    return true
  else return false

/-- Writes back the pages of the list, up to the first that cannot be. -/
def writeBackAll : List PageId → DbM Unit
  | [] => return
  | id :: ids => do
    writeBack id
    writeBackAll ids

/-- Writes every dirty cached page to disk, the most recently used first. -/
def flushAll : DbM Unit := do
  writeBackAll ((← get).pool.cache.toList.map (·.1))

/-! ## 2. Fetching -/

/-- The page that has to leave the cache before another can enter, if it is full. -/
def chooseVictim : DbM (Option PageId) := do
  let cache := (← get).pool.cache
  if cache.size < cache.capacity then return none
  else match cache.oldestWhere? fun _ frame => frame.pins == 0 with
    | none => throw .allPinned
    | some (id, _) => return some id

/-- Drops a frame from the cache; it goes on beside it while it is pinned. -/
def drop (id : PageId) : DbM Unit :=
  modifyPool fun pool =>
    let (dropped, cache) := pool.cache.erase id
    let detached := match dropped with
      | some frame => if frame.pins = 0 then pool.detached else frame :: pool.detached
      | none => pool.detached
    { pool with cache, detached }

/-- Puts a page into the cache, in a frame that nobody holds. -/
def load (id : PageId) (page : Page) : DbM Frame := do
  let pool := (← get).pool
  let frame : Frame := ⟨page, pool.nextSerial, 0⟩
  modifyPool fun pool => { pool with
    cache := (pool.cache.insert id frame).2
    nextSerial := pool.nextSerial + 1 }
  return frame

/-- The frame of a page that is not in the cache yet. -/
def fetchMissing (id : PageId) : DbM Frame := do
  let victim ← chooseVictim
  let ref ← tableOf id.table
  let page ← readPage ref id.number
  match victim with
  | none => pure ()
  | some victim =>
    writeBack victim
    drop victim
  load id page

/-- The frame of a page, from the cache or else from disk.  It becomes the most recently used. -/
def fetch (id : PageId) : DbM Frame := do
  match (← get).pool.cache.peek? id with
  | some frame =>
    modifyPool fun pool => { pool with cache := pool.cache.touch id }
    return frame
  | none => fetchMissing id

/-- Changes a page in the cache. -/
def modifyPage (id : PageId) (change : Page → Page) : DbM Unit :=
  modifyPool fun pool => { pool with cache := pool.cache.modify id fun frame =>
    { frame with page := change frame.page } }

/-- Drops the page from the cache without writing it; tells whether it was there. -/
def discard (id : PageId) : DbM Bool := do
  let held := (← get).pool.cache.contains id
  drop id
  return held

/-- Gives the database a new pool, without pages.  What was only in the old one is lost. -/
def replacePool (capacity : Nat) : DbM Unit := do
  let pool ← attempt (Pool.make capacity)
  modifyPool fun _ => pool

/-! ## 3. Holding pages -/

/-- A hold on a frame. -/
structure Pin where
  page : PageId
  serial : Nat
deriving DecidableEq, Repr

/-- Fetches a page and holds it: it stays cached until it is let go. -/
def pin (id : PageId) : DbM Pin := do
  let frame ← fetch id
  modifyPool fun pool => { pool with cache := pool.cache.modify id fun frame =>
    { frame with pins := frame.pins + 1 } }
  return ⟨id, frame.serial⟩

/-- The pinned frame is still the one in the cache. -/
def isCached (pool : Pool) (p : Pin) : Bool :=
  (pool.cache.peek? p.page).any (·.serial == p.serial)

/-- Changes the pinned frame, in the cache or beside it. -/
def modifyPinned (p : Pin) (change : Frame → Frame) : DbM Unit :=
  modifyPool fun pool =>
    if isCached pool p then { pool with cache := pool.cache.modify p.page change }
    else { pool with detached := pool.detached.map fun frame =>
      if frame.serial = p.serial then change frame else frame }

/-- Lets a frame go.  One beside the cache that nobody holds any more is gone. -/
def unpin (p : Pin) : DbM Unit := do
  modifyPinned p fun frame => { frame with pins := frame.pins - 1 }
  modifyPool fun pool => { pool with detached := pool.detached.filter (·.pins != 0) }

/-- The page that is held. -/
def pinned? (db : Database) (p : Pin) : Option Page :=
  if isCached db.pool p then (db.pool.cache.peek? p.page).map (·.page)
  else (db.pool.detached.find? (·.serial == p.serial)).map (·.page)

/-- How many holders a cached page has. -/
def pinCount? (db : Database) (id : PageId) : Option Nat :=
  (db.pool.cache.peek? id).map (·.pins)

end Database
end RowStore
