/-
# What a database does, step by step

Whatever is asked of a database, it answers by steps of a few kinds.  Five of them it may take at any
time and for any reason: a page is read, a page becomes the most recently used, a dirty page is
written back, a clean page that nobody holds leaves the cache, and a page of the disk comes into the
cache.  These are the quiet steps (`Quiet`).  A table may also grow by a page or lose the last one,
and a cached page may change, which it then says by being dirty (`Step`).

`Sound` is what every step keeps, whatever the files of the tables refuse and whatever is in them:
each table has its own file, which carries its pages, and what is cached are pages of tables.
-/
import RowStore.Proofs.Database.Extents
import RowStore.Proofs.Database.Pool
import Mathlib.Logic.Relation

namespace RowStore

/-! ## 1. Sound databases -/

/-- The pages of the one pool are pages of the other, under the same names. -/
def Pool.Draws (new old : Pool) : Prop :=
  ∀ id frame, new.cache.peek? id = some frame →
    ∃ frame', old.cache.peek? id = some frame' ∧ frame'.page = frame.page

/-- Each table has its own file, which carries its pages, and the cached pages are pages of
tables. -/
structure Sound (db : Database) : Prop where
  registered : db.Registered
  carried : ∀ {id x}, db.extent? id = some x → db.disk.Carries x.path x.layout.pageSize x.count
  apart : ∀ {a b x y}, db.extent? a = some x → db.extent? b = some y → x.path = y.path → a = b
  inOrder : db.pool.cache.InOrder
  cached : ∀ {id frame}, db.pool.cache.peek? id = some frame →
    ∃ x, db.extent? id.table = some x ∧ x.Admits db.disk id frame.page

namespace Database

def withCache (db : Database) (cache : Lru PageId Frame) : Database :=
  { db with pool := { db.pool with cache } }

/-- The page stands in the cache, in a frame that nobody holds. -/
def loaded (db : Database) (id : PageId) (page : Page) : Database :=
  { db with pool := { db.pool with
      cache := (db.pool.cache.insert id ⟨page, db.pool.nextSerial, 0⟩).2
      nextSerial := db.pool.nextSerial + 1 } }

end Database

namespace Extent.Admits

variable {x : Extent} {disk : Disk} {id : PageId} {page page' : Page}

theorem length_encode (h : x.Admits disk id page) : page.encode.length = x.layout.pageSize := by
  rw [h.valid.length_encode, h.layout_eq]

/-- Another page in order may stand there too. -/
theorem replace (h : x.Admits disk id page) (hv : page'.Valid) (hid : page'.id = page.id)
    (hlayout : page'.layout = page.layout) : x.Admits disk id page' :=
  ⟨hv, hid.trans h.id_eq, hlayout.trans h.layout_eq, h.within⟩

theorem cleaned {frame : Frame} (h : x.Admits disk id frame.page) :
    x.Admits disk id frame.cleaned.page :=
  h.replace (h.valid.mark false).capture rfl rfl

/-- A page of a table that took a write is one of those that the table counts. -/
theorem lt_count (h : x.Admits disk id page) (hend : ¬ disk.Endless x.path) : id.number < x.count :=
  h.within.resolve_right hend

end Extent.Admits

namespace Sound

variable {db : Database}

/-! ## 2. Changing the pool -/

/-- A cache that has no other pages is as good. -/
theorem withPool (h : Sound db) {pool : Pool} (hord : pool.cache.InOrder)
    (hpages : pool.Draws db.pool) : Sound { db with pool } where
  registered := h.registered
  carried := h.carried
  apart := h.apart
  inOrder := hord
  cached := by
    intro id frame hframe
    obtain ⟨frame', hframe', hpage⟩ := hpages id frame hframe
    obtain ⟨x, hx, hadmits⟩ := h.cached hframe'
    exact ⟨x, hx, hpage ▸ hadmits⟩

/-- One cached page changes, into another that may stand there. -/
theorem modify (h : Sound db) {id : PageId} {frame : Frame} {x : Extent}
    (hframe : db.pool.cache.peek? id = some frame) (hx : db.extent? id.table = some x)
    {change : Frame → Frame} (hadmits : x.Admits db.disk id (change frame).page) :
    Sound (db.withCache (db.pool.cache.modify id change)) where
  registered := h.registered
  carried := h.carried
  apart := h.apart
  inOrder := h.inOrder.modify id change
  cached := by
    intro id' frame' hframe'
    rcases h.inOrder.modify_cases hframe' with ⟨rfl, old, hold, rfl⟩ | ⟨-, hframe'⟩
    · obtain rfl : frame = old := Option.some.inj (hframe.symm.trans hold)
      exact ⟨x, hx, hadmits⟩
    · exact h.cached hframe'

theorem loaded (h : Sound db) {id : PageId} {x : Extent} {image : Bytes} {page : Page}
    (habsent : db.pool.cache.peek? id = none)
    (hroom : db.pool.cache.size < db.pool.cache.capacity) (hx : db.extent? id.table = some x)
    (hread : x.read db.disk id.number = .ok image)
    (hdecode : Page.decode id x.layout image = .ok page) : Sound (db.loaded id page) where
  registered := h.registered
  carried := h.carried
  apart := h.apart
  inOrder := h.inOrder.insert id _
  cached := by
    intro id' frame' hframe'
    rcases h.inOrder.insert_cases habsent hroom hframe' with ⟨rfl, rfl⟩ | ⟨-, hframe'⟩
    · obtain ⟨-, slots, -, hpage⟩ := Page.decode_cases hdecode
      refine ⟨x, hx, Page.Valid.of_decode hdecode, ?_, ?_, (h.carried hx).lt_or_endless hread⟩
      · rw [hpage]
      · rw [hpage]
    · exact h.cached hframe'

/-! ## 3. Changing a table -/

theorem counted (h : Sound db) (table : TableId) : Sound (db.counted table) := by
  have hextent := Database.extent?_counted h.registered table
  exact
    { registered := h.registered.counted
      carried := fun hx => h.carried (by rwa [hextent] at hx)
      apart := fun hx hy => h.apart (by rwa [hextent] at hx) (by rwa [hextent] at hy)
      inOrder := h.inOrder
      cached := fun hframe => by
        rw [hextent]
        exact h.cached hframe }

section Recount

variable {table : TableId} {number : Nat} {x : Extent} {image : Bytes} {disk : Disk}

/-- One table has another number of pages, and its file carries them. -/
theorem recounted (h : Sound db) {db' : Database} {count : Nat} (hregistered : db'.Registered)
    (hpool : db'.pool = db.pool) (hx : db.extent? table = some x)
    (hextent : ∀ id, db'.extent? id =
      if id = table then (db.extent? table).map fun x => { x with count } else db.extent? id)
    (hcarries : db'.disk.Carries x.path x.layout.pageSize count)
    (hother : ∀ p, p ≠ x.path → db'.disk.file? p = db.disk.file? p)
    (hendless : ∀ p, db'.disk.Endless p ↔ db.disk.Endless p)
    (hwithin : ∀ {id frame}, db.pool.cache.peek? id = some frame → id.table = table →
      x.Admits db.disk id frame.page → id.number < count ∨ db.disk.Endless x.path) : Sound db' := by
  -- but for its number of pages, an extent is where it was
  have hold : ∀ {id y}, db'.extent? id = some y → ∃ y', db.extent? id = some y' ∧
      y'.path = y.path := by
    intro id y hy
    rw [hextent] at hy
    split at hy
    · rename_i hid
      rw [hx, Option.map_some, Option.some.injEq] at hy
      exact ⟨x, hid ▸ hx, by rw [← hy]⟩
    · exact ⟨y, hy, rfl⟩
  refine
    { registered := hregistered, carried := ?_, apart := ?_, inOrder := hpool ▸ h.inOrder,
      cached := ?_ }
  · intro id y hy
    rw [hextent] at hy
    split at hy
    · rw [hx, Option.map_some, Option.some.injEq] at hy
      subst hy
      exact hcarries
    · rename_i hid
      exact (h.carried hy).congr (hother _ fun hpath => hid (h.apart hy hx hpath))
  · intro a b y z hy hz hpath
    obtain ⟨y', hy', hpy⟩ := hold hy
    obtain ⟨z', hz', hpz⟩ := hold hz
    exact h.apart hy' hz' (by rw [hpy, hpz, hpath])
  · intro id frame hframe
    rw [hpool] at hframe
    obtain ⟨y, hy, hadmits⟩ := h.cached hframe
    rw [hextent]
    by_cases hid : id.table = table
    · obtain rfl : x = y := Option.some.inj (hx.symm.trans (hid ▸ hy))
      have hin := hwithin hframe hid hadmits
      rw [if_pos hid, hx]
      exact ⟨_, rfl, hadmits.valid, hadmits.id_eq, hadmits.layout_eq,
        hin.imp_right (hendless _).mpr⟩
    · rw [if_neg hid]
      exact ⟨y, hy, hadmits.valid, hadmits.id_eq, hadmits.layout_eq,
        hadmits.within.imp_right (hendless _).mpr⟩

/-- A page is written into the table or right behind it. -/
theorem written (h : Sound db) (hx : db.extent? table = some x) (hnumber : number ≤ x.count)
    (himage : image.length = x.layout.pageSize) (hwrite : x.write db.disk number image = .ok disk) :
    Sound (db.written table number disk) := by
  obtain ⟨hcarries, -, -, hother, hendless⟩ := (h.carried hx).write hnumber himage hwrite
  refine @recounted db table x h (db.written table number disk) (max x.count (number + 1))
    h.registered.written rfl hx (fun id => ?_) hcarries hother hendless fun hframe _ hadmits => ?_
  · rw [Database.extent?_written h.registered, hx]
    rfl
  · exact hadmits.within.imp_left fun hlt => Nat.lt_of_lt_of_le hlt (Nat.le_max_left ..)

/-- The table loses its last page, which is not cached. -/
theorem shrunk (h : Sound db) (hx : db.extent? table = some x) (hcount : x.count = number + 1)
    (habsent : db.pool.cache.peek? ⟨table, number⟩ = none)
    (hcut : x.cut db.disk number = .ok disk) : Sound (db.shrunk table number disk) := by
  have hcarried := h.carried hx
  rw [hcount] at hcarried
  obtain ⟨hcarries, hend, -, hother, hendless⟩ := hcarried.cut hcut
  refine @recounted db table x h (db.shrunk table number disk) number h.registered.shrunk rfl hx
    (fun id => Database.extent?_shrunk h.registered id) hcarries hother hendless
    fun {id frame} hframe hid hadmits => ?_
  have hlt := hadmits.lt_count hend
  have hne : id.number ≠ number := by
    rintro rfl
    subst hid
    exact absurd (habsent.symm.trans hframe) (by simp)
  exact Or.inl (by omega)

end Recount

end Sound

/-! ## 4. Steps -/

/-- The steps that a database may take at any time. -/
inductive Quiet : Database → Database → Prop
  /-- A page is read. -/
  | count {db : Database} (table : TableId) : Quiet db (db.counted table)
  /-- A page becomes the most recently used. -/
  | touch {db : Database} (id : PageId) : Quiet db (db.withCache (db.pool.cache.touch id))
  /-- A dirty page is written to its place, and is clean then. -/
  | writeBack {db : Database} {id : PageId} {frame : Frame} {x : Extent} {disk : Disk}
      (hframe : db.pool.cache.peek? id = some frame) (hdirty : frame.page.dirty = true)
      (hx : db.extent? id.table = some x)
      (hwrite : x.write db.disk id.number frame.page.encode = .ok disk) :
      Quiet db ((db.written id.table id.number disk).withCache
        (db.pool.cache.modify id Frame.cleaned))
  /-- A clean page that nobody holds leaves the cache. -/
  | evict {db : Database} {id : PageId} {frame : Frame}
      (hframe : db.pool.cache.peek? id = some frame) (hclean : frame.page.dirty = false)
      (hpins : frame.pins = 0) : Quiet db (db.withCache (db.pool.cache.erase id).2)
  /-- A page comes into the cache as it is on the disk. -/
  | load {db : Database} {id : PageId} {x : Extent} {image : Bytes} {page : Page}
      (habsent : db.pool.cache.peek? id = none)
      (hroom : db.pool.cache.size < db.pool.cache.capacity) (hx : db.extent? id.table = some x)
      (hread : x.read db.disk id.number = .ok image)
      (hdecode : Page.decode id x.layout image = .ok page) : Quiet db (db.loaded id page)

/-- The steps by which a database answers what is asked of it. -/
inductive Step : Database → Database → Prop
  | quiet {db db' : Database} (h : Quiet db db') : Step db db'
  /-- The table gets an empty page behind its last one. -/
  | append {db : Database} {table : TableId} {x : Extent} {disk : Disk}
      (hx : db.extent? table = some x)
      (hwrite : x.write db.disk x.count (Page.zeroImage x.layout.pageSize) = .ok disk) :
      Step db (db.written table x.count disk)
  /-- The table loses its last page, which is not cached. -/
  | shrink {db : Database} {table : TableId} {x : Extent} {number : Nat} {disk : Disk}
      (hx : db.extent? table = some x) (hcount : x.count = number + 1)
      (habsent : db.pool.cache.peek? ⟨table, number⟩ = none)
      (hcut : x.cut db.disk number = .ok disk) : Step db (db.shrunk table number disk)
  /-- A cached page changes, and is dirty then. -/
  | change {db : Database} {id : PageId} {frame : Frame} (change : Frame → Frame)
      (hframe : db.pool.cache.peek? id = some frame) (hv : (change frame).page.Valid)
      (hid : (change frame).page.id = frame.page.id)
      (hlayout : (change frame).page.layout = frame.page.layout)
      (hbefore : (change frame).page.before = frame.page.before)
      (hdirty : (change frame).page.dirty = true) (hserial : (change frame).serial = frame.serial)
      (hpins : (change frame).pins = frame.pins) :
      Step db (db.withCache (db.pool.cache.modify id change))

/-- Any number of quiet steps. -/
abbrev Quiets : Database → Database → Prop := Relation.ReflTransGen Quiet

/-- Any number of steps. -/
abbrev Steps : Database → Database → Prop := Relation.ReflTransGen Step

theorem Quiets.steps {db db' : Database} (h : Quiets db db') : Steps db db' :=
  Relation.ReflTransGen.mono (fun _ _ => Step.quiet) _ _ h

/-- No step touches the catalog. -/
theorem Step.catalog {db db' : Database} (h : Step db db') : db'.catalog = db.catalog := by
  cases h with
  | quiet hq => cases hq <;> rfl
  | append hx hwrite => rfl
  | shrink hx hcount habsent hcut => rfl
  | change change hframe hv hid hlayout hbefore hdirty hserial hpins => rfl

theorem Steps.ref? {db db' : Database} (h : Steps db db') (id : TableId) :
    db'.ref? id = db.ref? id := by
  induction h with
  | refl => rfl
  | tail _ hstep ih => rw [← ih, Database.ref?, Database.ref?, hstep.catalog]

namespace Sound

variable {db db' : Database}

/-- **Every quiet step** keeps a database sound, and its tables where they are. -/
theorem quiet (h : Sound db) (hq : Quiet db db') : Sound db' ∧ db'.extent? = db.extent? := by
  cases hq with
  | count table => exact ⟨h.counted table, Database.extent?_counted h.registered table⟩
  | touch id =>
    refine ⟨h.withPool (h.inOrder.touch id) fun id' frame hframe => ?_, rfl⟩
    exact ⟨frame, (h.inOrder.peek?_touch id id').symm.trans hframe, rfl⟩
  | @writeBack id frame x disk hframe hdirty hx hwrite =>
    obtain ⟨y, hy, hadmits⟩ := h.cached hframe
    obtain rfl : x = y := Option.some.inj (hx.symm.trans hy)
    have himage := hadmits.length_encode
    have hlt := hadmits.lt_count ((h.carried hx).not_endless himage hwrite)
    have hcount : max x.count (id.number + 1) = x.count := Nat.max_eq_left hlt
    have hextent : (db.written id.table id.number disk).extent? = db.extent? := by
      funext id'
      rw [Database.extent?_written h.registered, hx, Option.map_some, hcount]
      split
      · rename_i hid
        rw [hid, hx]
      · rfl
    have hsound := h.written hx (Nat.le_of_lt hlt) himage hwrite
    have hx' : (db.written id.table id.number disk).extent? id.table = some x := by
      rw [hextent, hx]
    obtain ⟨y, hy, hadmits'⟩ := hsound.cached hframe
    obtain rfl : x = y := Option.some.inj (hx'.symm.trans hy)
    exact ⟨hsound.modify hframe hx' hadmits'.cleaned, hextent⟩
  | @evict id frame hframe hclean hpins =>
    exact ⟨h.withPool (h.inOrder.erase id) fun id' frame' hframe' =>
      ⟨frame', (h.inOrder.erase_cases hframe').2, rfl⟩, rfl⟩
  | load habsent hroom hx hread hdecode => exact ⟨h.loaded habsent hroom hx hread hdecode, rfl⟩

/-- **Every step** keeps a database sound. -/
theorem step (h : Sound db) (hs : Step db db') : Sound db' := by
  cases hs with
  | quiet hq => exact (h.quiet hq).1
  | append hx hwrite => exact h.written hx (Nat.le_refl _) List.length_replicate hwrite
  | shrink hx hcount habsent hcut => exact h.shrunk hx hcount habsent hcut
  | change change hframe hv hid hlayout hbefore hdirty hserial hpins =>
    obtain ⟨x, hx, hadmits⟩ := h.cached hframe
    exact h.modify hframe hx (hadmits.replace hv hid hlayout)

theorem steps (h : Sound db) (hs : Steps db db') : Sound db' := by
  induction hs with
  | refl => exact h
  | tail _ hstep ih => exact ih.step hstep

theorem quiets (h : Sound db) (hq : Quiets db db') : Sound db' := h.steps hq.steps

/-- **What every step keeps** on a sound database is so behind any number of them. -/
theorem steps_induction (P : Database → Prop)
    (step : ∀ db db', Sound db → Step db db' → P db → P db') (h : Sound db) (hp : P db)
    (hs : Steps db db') : P db' := by
  induction hs with
  | refl => exact hp
  | tail hs hstep ih => exact step _ _ (h.steps hs) hstep ih

/-- Quiet steps leave the tables where they are. -/
theorem extent?_quiets (h : Sound db) (hq : Quiets db db') : db'.extent? = db.extent? := by
  induction hq with
  | refl => rfl
  | tail hq hstep ih => exact ((h.quiets hq).quiet hstep).2.trans ih

/-- Quiet steps do not settle whether a file has an end. -/
theorem endless_quiet (h : Sound db) (hq : Quiet db db') (path : String) :
    db'.disk.Endless path ↔ db.disk.Endless path := by
  cases hq with
  | count table => exact Iff.rfl
  | touch id => exact Iff.rfl
  | @writeBack id frame x disk hframe hdirty hx hwrite =>
    obtain ⟨y, hy, hadmits⟩ := h.cached hframe
    obtain rfl : x = y := Option.some.inj (hx.symm.trans hy)
    have himage := hadmits.length_encode
    have hlt := hadmits.lt_count ((h.carried hx).not_endless himage hwrite)
    exact ((h.carried hx).write (Nat.le_of_lt hlt) himage hwrite).2.2.2.2 path
  | evict hframe hclean hpins => exact Iff.rfl
  | load habsent hroom hx hread hdecode => exact Iff.rfl

theorem endless_quiets (h : Sound db) (hq : Quiets db db') (path : String) :
    db'.disk.Endless path ↔ db.disk.Endless path := by
  induction hq with
  | refl => exact Iff.rfl
  | tail hq hstep ih => exact ((h.quiets hq).endless_quiet hstep path).trans ih

end Sound
end RowStore
