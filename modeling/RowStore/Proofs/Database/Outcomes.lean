/-
# What the parts of a database come to

For each part that touches the disk, one equation says what it comes to
(`Database.Registered.readPage_run`, `Database.Registered.writeAt_run` and so on).  Writing back,
choosing a victim and fetching have several endings, and each has an inductive type with a
constructor for every one of them: `WroteBack`, `Chosen` and `Fetched`.  They say in which order the
errors win and which state is left, and nothing behind this file looks at how the parts are put
together.

A fetch is a run of quiet steps, however it ends (`Fetched.quiets`), and one that fails has at most
counted a read (`Fetched.of_error`).
-/
import RowStore.Proofs.Database.Contents
import RowStore.Database.Rows

namespace RowStore

/-- The state in which a computation ends, whether it succeeds or fails. -/
def endState {ε σ α : Type} : EStateM.Result ε σ α → σ
  | .ok _ s => s
  | .error _ s => s

@[simp] theorem endState_ok {ε σ α : Type} (a : α) (s : σ) :
    endState (.ok a s : EStateM.Result ε σ α) = s := rfl

@[simp] theorem endState_error {ε σ α : Type} (e : ε) (s : σ) :
    endState (.error e s : EStateM.Result ε σ α) = s := rfl

/-! ## 1. Looking up -/

/-- The extent is that of an open table file. -/
structure Extent.Describes (x : Extent) (id : TableId) (f : TableFile) : Prop where
  id : f.id = id
  path : f.path = x.path
  layout : f.layout = x.layout
  count : f.pageCount = x.count

namespace Database

theorem tableOf_run (db : Database) (id : TableId) :
    (tableOf id).run db = match db.ref? id with
      | some ref => .ok ref db
      | none => .error (.noSuchTable id) db := by
  simp only [tableOf, EStateM.run_bind, EStateM.run_get, ref?]
  cases db.catalog.tables[id]? <;> rfl

theorem modifyFile_run {db : Database} {id : TableId} {ref : TableRef} (href : db.ref? id = some ref)
    (change : TableFile → TableFile) :
    (modifyFile ref change).run db = .ok () (db.modifyTable id change) := by
  simp only [modifyFile, EStateM.run_modify, modifyTable, href]

end Database

namespace Database.Registered

variable {db : Database} {id : TableId} {ref : TableRef} {x : Extent}

theorem exists_extent (h : db.Registered) (href : db.ref? id = some ref) :
    ∃ x, db.extent? id = some x := by
  obtain ⟨f, hf, -⟩ := h _ _ href
  exact ⟨_, Database.extent?_of_table ((Database.table?_of_ref href).trans hf)⟩

theorem file_run (h : db.Registered) (href : db.ref? id = some ref) (hx : db.extent? id = some x) :
    ∃ f, (Database.file ref).run db = .ok f db ∧ x.Describes id f := by
  obtain ⟨f, hf, hid⟩ := h _ _ href
  obtain rfl := Option.some.inj
    ((Database.extent?_of_table ((Database.table?_of_ref href).trans hf)).symm.trans hx)
  refine ⟨f, ?_, hid, rfl, rfl, rfl⟩
  simp only [Database.file, EStateM.run_bind, EStateM.run_get, hf, EStateM.run_pure]

/-! ## 2. Reading and writing -/

theorem readPage_run (h : db.Registered) (href : db.ref? id = some ref) (hx : db.extent? id = some x)
    (number : Nat) : (Database.readPage ref number).run db =
      match x.read db.disk number with
      | .error fault => .error (.io fault) db
      | .ok image => match Page.decode ⟨id, number⟩ x.layout image with
        | .error e => .error e (db.counted id)
        | .ok page => .ok page (db.counted id) := by
  obtain ⟨f, hfile, hd⟩ := h.file_run href hx
  have hread : db.disk.read f.path (PageId.offset ⟨f.id, number⟩ f.layout.pageSize)
      f.layout.pageSize = x.read db.disk number := by
    rw [hd.path, hd.layout]
    rfl
  have hcount := Database.modifyFile_run href .afterRead
  simp only [Database.readPage, EStateM.run_bind, hfile, EStateM.run_get, hread]
  cases x.read db.disk number with
  | error fault => rfl
  | ok image =>
    have hmodify : (Database.modifyFile ref fun f => { f with reads := f.reads + 1 }).run db =
        .ok () (db.counted id) := hcount
    simp only [Database.attemptIo, EStateM.run_pure, hmodify, hd.id, hd.layout]
    cases Page.decode ⟨id, number⟩ x.layout image <;> rfl

theorem writeAt_run (h : db.Registered) (href : db.ref? id = some ref) (hx : db.extent? id = some x)
    (number : Nat) (image : Bytes) : (Database.writeAt ref number image).run db =
      match x.write db.disk number image with
      | .error fault => .error (.io fault) db
      | .ok disk => .ok () (db.written id number disk) := by
  obtain ⟨f, hfile, hd⟩ := h.file_run href hx
  have hwrite : db.disk.write f.path (number * f.layout.pageSize) image =
      x.write db.disk number image := by
    rw [hd.path, hd.layout]
    rfl
  simp only [Database.writeAt, EStateM.run_bind, hfile, EStateM.run_get, hwrite]
  cases x.write db.disk number image with
  | error fault => rfl
  | ok disk =>
    have hmodify := @Database.modifyFile_run { db with disk } id ref href (.afterWrite number)
    exact hmodify

theorem appendPage_run (h : db.Registered) (href : db.ref? id = some ref) (hx : db.extent? id = some x) :
    (Database.appendPage ref).run db =
      match x.write db.disk x.count (Page.zeroImage x.layout.pageSize) with
      | .error fault => .error (.io fault) db
      | .ok disk => .ok ⟨id, x.count⟩ (db.written id x.count disk) := by
  obtain ⟨f, hfile, hd⟩ := h.file_run href hx
  simp only [Database.appendPage, EStateM.run_bind, hfile, hd.count, hd.layout, hd.id,
    h.writeAt_run href hx]
  cases x.write db.disk x.count (Page.zeroImage x.layout.pageSize) <;> rfl

/-- A page that is not the last one any more is left. -/
theorem removeLastPage_idle (h : db.Registered) (href : db.ref? id = some ref)
    (hx : db.extent? id = some x) {number : Nat} (hcount : x.count ≠ number + 1) :
    (Database.removeLastPage ref ⟨id, number⟩).run db = .ok () db := by
  obtain ⟨f, hfile, hd⟩ := h.file_run href hx
  have hlast : ¬ f.pageCount = number + 1 := fun hlast => hcount (hd.count.symm.trans hlast)
  simp only [Database.removeLastPage, EStateM.run_bind, hfile, if_neg hlast]
  rfl

/-- The last page of a table is taken back. -/
theorem removeLastPage_run (h : db.Registered) (href : db.ref? id = some ref)
    (hx : db.extent? id = some x) {number : Nat} (hcount : x.count = number + 1) :
    (Database.removeLastPage ref ⟨id, number⟩).run db =
      match x.cut db.disk number with
      | .error fault => .error (.io fault) db
      | .ok disk => .ok () (db.shrunk id number disk) := by
  obtain ⟨f, hfile, hd⟩ := h.file_run href hx
  have hlast : f.pageCount = number + 1 := hd.count.trans hcount
  have hcut : db.disk.resize f.path (PageId.offset ⟨id, number⟩ f.layout.pageSize) =
      x.cut db.disk number := by
    rw [hd.path, hd.layout]
    rfl
  simp only [Database.removeLastPage, EStateM.run_bind, hfile, hlast, if_true, EStateM.run_get,
    hcut]
  cases x.cut db.disk number with
  | error fault => rfl
  | ok disk =>
    have hmodify := @Database.modifyFile_run { db with disk } id ref href (.afterCut number)
    exact hmodify

end Database.Registered

/-! ## 3. Writing back -/

/-- What writing a page back can come to. -/
inductive WroteBack (db : Database) (id : PageId) : EStateM.Result Error Database Unit → Prop
  /-- The page is not cached, or is clean. -/
  | idle (hclean : ∀ frame, db.pool.cache.peek? id = some frame → frame.page.dirty = false) :
      WroteBack db id (.ok () db)
  | written {frame : Frame} {x : Extent} {disk : Disk}
      (hframe : db.pool.cache.peek? id = some frame) (hdirty : frame.page.dirty = true)
      (hx : db.extent? id.table = some x)
      (hwrite : x.write db.disk id.number frame.page.encode = .ok disk) :
      WroteBack db id (.ok () ((db.written id.table id.number disk).withCache
        (db.pool.cache.modify id Frame.cleaned)))
  | refused {frame : Frame} {x : Extent} {fault : IoFault}
      (hframe : db.pool.cache.peek? id = some frame) (hdirty : frame.page.dirty = true)
      (hx : db.extent? id.table = some x)
      (hwrite : x.write db.disk id.number frame.page.encode = .error fault) :
      WroteBack db id (.error (.io fault) db)

/-- A cached page of a table is written to its own place. -/
theorem Database.Registered.writeBack_run {db : Database} (h : db.Registered) {id : PageId}
    (hcached : ∀ frame, db.pool.cache.peek? id = some frame →
      frame.page.id = id ∧ ∃ x, db.extent? id.table = some x) :
    WroteBack db id ((Database.writeBack id).run db) := by
  cases hframe : db.pool.cache.peek? id with
  | none =>
    simp only [Database.writeBack, EStateM.run_bind, EStateM.run_get, hframe, EStateM.run_pure]
    exact .idle fun frame hf => absurd (hframe.symm.trans hf) (by simp)
  | some frame =>
    cases hdirty : frame.page.dirty with
    | false =>
      simp only [Database.writeBack, EStateM.run_bind, EStateM.run_get, hframe, hdirty,
        Bool.false_eq_true, if_false, EStateM.run_pure]
      refine .idle fun frame' hf => ?_
      obtain rfl : frame = frame' := Option.some.inj (hframe.symm.trans hf)
      exact hdirty
    | true =>
      obtain ⟨hid, x, hx⟩ := hcached frame hframe
      obtain ⟨ref, href⟩ := Database.Registered.exists_ref hx
      have hwrite := h.writeAt_run href hx id.number frame.page.encode
      simp only [Database.writeBack, EStateM.run_bind, EStateM.run_get, hframe, hdirty, if_true,
        Database.tableOf_run, href, Database.writePage, hid, hwrite]
      cases hw : x.write db.disk id.number frame.page.encode with
      | error fault => exact .refused hframe hdirty hx hw
      | ok disk => exact .written hframe hdirty hx hw

theorem Sound.writeBack_run {db : Database} (h : Sound db) (id : PageId) :
    WroteBack db id ((Database.writeBack id).run db) := by
  refine h.registered.writeBack_run fun frame hframe => ?_
  obtain ⟨x, hx, hadmits⟩ := h.cached hframe
  exact ⟨hadmits.id_eq, x, hx⟩

theorem WroteBack.quiets {db : Database} {id : PageId} {r : EStateM.Result Error Database Unit}
    (h : WroteBack db id r) : Quiets db (endState r) := by
  cases h with
  | idle hclean => exact .refl
  | written hframe hdirty hx hwrite => exact .single (.writeBack hframe hdirty hx hwrite)
  | refused hframe hdirty hx hwrite => exact .refl

/-- A page that could not be written back leaves everything as it was. -/
theorem WroteBack.of_error {db db' : Database} {id : PageId} {e : Error}
    (h : WroteBack db id (.error e db')) : db' = db ∧ ∃ fault, e = .io fault := by
  cases h with
  | refused hframe hdirty hx hwrite => exact ⟨rfl, _, rfl⟩

section WroteBack

variable {db db' : Database} {id : PageId}

theorem WroteBack.quiets_of_ok (hw : WroteBack db id (.ok () db')) : Quiets db db' := hw.quiets

/-- The page that was written back is clean, and held as before. -/
theorem WroteBack.frame (h : Sound db) (hw : WroteBack db id (.ok () db')) {frame : Frame}
    (hframe : db.pool.cache.peek? id = some frame) :
    ∃ frame', db'.pool.cache.peek? id = some frame' ∧ frame'.page.dirty = false ∧
      frame'.pins = frame.pins := by
  cases hw with
  | idle hclean => exact ⟨frame, hframe, hclean frame hframe, rfl⟩
  | @written frame₀ x disk hframe₀ hdirty hx hwrite =>
    obtain rfl : frame = frame₀ := Option.some.inj (hframe.symm.trans hframe₀)
    refine ⟨frame.cleaned, ?_, rfl, rfl⟩
    have hpeek := h.inOrder.peek?_modify id Frame.cleaned id
    rw [if_pos rfl, hframe] at hpeek
    exact hpeek

/-- The other pages are cached as before, and their images on the disk are as before. -/
theorem WroteBack.others (h : Sound db) (hw : WroteBack db id (.ok () db')) {id' : PageId}
    (hne : id' ≠ id) : db'.pool.cache.peek? id' = db.pool.cache.peek? id' ∧
      db'.image? id' = db.image? id' := by
  cases hw with
  | idle hclean => exact ⟨rfl, rfl⟩
  | @written frame x disk hframe hdirty hx hwrite =>
    obtain ⟨-, -, hrest⟩ := Settled.stored?_cleaned h hframe hx hwrite
    exact ⟨(h.inOrder.peek?_modify id Frame.cleaned id').trans (if_neg hne), (hrest id' hne).1⟩

/-- A page that nobody holds is written back and leaves, and there is room for another then. -/
theorem WroteBack.evict (h : Sound db) {victim : PageId} (hw : WroteBack db victim (.ok () db'))
    {frame : Frame} (hframe : db.pool.cache.peek? victim = some frame) (hpins : frame.pins = 0)
    (habsent : db.pool.cache.peek? id = none) :
    Quiets db (db'.withCache (db'.pool.cache.erase victim).2) ∧
      (db'.pool.cache.erase victim).2.peek? id = none ∧
      (db'.pool.cache.erase victim).2.size < (db'.pool.cache.erase victim).2.capacity ∧
      db'.image? id = db.image? id := by
  have hord := (h.quiets hw.quiets_of_ok).inOrder
  have hne : id ≠ victim := by
    rintro rfl
    exact absurd (habsent.symm.trans hframe) (by simp)
  obtain ⟨frame', hframe', hclean, hpins'⟩ := hw.frame h hframe
  obtain ⟨hpeek, himage⟩ := hw.others h hne
  refine ⟨hw.quiets_of_ok.tail (.evict hframe' hclean (hpins'.trans hpins)), ?_, ?_, himage⟩
  · rw [hord.peek?_erase, if_neg hne, hpeek, habsent]
  · have herase := hord.size_erase hframe'
    have hle := hord.size_le
    rw [Lru.capacity_erase]
    omega

end WroteBack

/-! ## 4. Choosing a victim -/

/-- The cache is full, and every page in it is held. -/
def Database.Crowded (db : Database) : Prop :=
  db.pool.cache.size = db.pool.cache.capacity ∧
    ∀ id frame, db.pool.cache.peek? id = some frame → frame.pins ≠ 0

/-- What choosing a victim can come to. -/
inductive Chosen (db : Database) : EStateM.Result Error Database (Option PageId) → Prop
  | room (hroom : db.pool.cache.size < db.pool.cache.capacity) : Chosen db (.ok none db)
  /-- The last page in the order of use that nobody holds. -/
  | victim {newer older : List (PageId × Frame)} {id : PageId} {frame : Frame}
      (hfull : db.pool.cache.size = db.pool.cache.capacity)
      (hlist : db.pool.cache.toList = newer ++ (id, frame) :: older) (hpins : frame.pins = 0)
      (hheld : ∀ entry ∈ older, entry.2.pins ≠ 0) : Chosen db (.ok (some id) db)
  | crowded (hcrowded : db.Crowded) : Chosen db (.error .allPinned db)

theorem chooseVictim_run {db : Database} (h : db.pool.cache.InOrder) :
    Chosen db (Database.chooseVictim.run db) := by
  by_cases hroom : db.pool.cache.size < db.pool.cache.capacity
  · simp only [Database.chooseVictim, EStateM.run_bind, EStateM.run_get, hroom, if_true,
      EStateM.run_pure]
    exact .room hroom
  have hfull : db.pool.cache.size = db.pool.cache.capacity :=
    Nat.le_antisymm h.size_le (Nat.le_of_not_lt hroom)
  simp only [Database.chooseVictim, EStateM.run_bind, EStateM.run_get, hroom, if_false]
  cases ho : db.pool.cache.oldestWhere? fun _ frame => frame.pins == 0 with
  | none =>
    refine .crowded ⟨hfull, fun id frame hframe hpins => ?_⟩
    exact h.not_accept_of_oldestWhere? ho hframe (beq_iff_eq.mpr hpins)
  | some entry =>
    obtain ⟨id, frame⟩ := entry
    rw [h.shows.oldestWhere?_eq, List.find?_eq_some_iff_append] at ho
    obtain ⟨hpins, bs, as, hlist, hheld⟩ := ho
    have hlist' : db.pool.cache.toList = as.reverse ++ (id, frame) :: bs.reverse := by
      rw [← List.reverse_reverse db.pool.cache.toList, hlist]
      simp
    refine .victim hfull hlist' (beq_iff_eq.mp hpins) fun entry hentry hzero => ?_
    have hno := hheld entry (List.mem_reverse.mp hentry)
    simp [hzero] at hno

/-! ## 5. Fetching -/

/-- What fetching a page can come to. -/
inductive Fetched (db : Database) (id : PageId) : EStateM.Result Error Database Frame → Prop
  | hit {frame : Frame} (hframe : db.pool.cache.peek? id = some frame) :
      Fetched db id (.ok frame (db.withCache (db.pool.cache.touch id)))
  | crowded (habsent : db.pool.cache.peek? id = none) (hcrowded : db.Crowded) :
      Fetched db id (.error .allPinned db)
  /-- There is no such table, or the page cannot be read. -/
  | unread {e : Error} (habsent : db.pool.cache.peek? id = none) (hfree : ¬ db.Crowded)
      (he : e ≠ .allPinned) : Fetched db id (.error e db)
  /-- The page does not decode, or the victim cannot be written back. -/
  | stopped {e : Error} (habsent : db.pool.cache.peek? id = none) (hfree : ¬ db.Crowded)
      (he : e ≠ .allPinned) : Fetched db id (.error e (db.counted id.table))
  | room {x : Extent} {image : Bytes} {page : Page} (habsent : db.pool.cache.peek? id = none)
      (hroom : db.pool.cache.size < db.pool.cache.capacity) (hx : db.extent? id.table = some x)
      (hread : x.read db.disk id.number = .ok image)
      (hdecode : Page.decode id x.layout image = .ok page) :
      Fetched db id (.ok ⟨page, db.pool.nextSerial, 0⟩ ((db.counted id.table).loaded id page))
  /-- A victim is written back if it is dirty, and makes room. -/
  | evicted {x : Extent} {image : Bytes} {page : Page} {newer older : List (PageId × Frame)}
      {victim : PageId} {frame : Frame} {db' : Database} (habsent : db.pool.cache.peek? id = none)
      (hfull : db.pool.cache.size = db.pool.cache.capacity)
      (hlist : db.pool.cache.toList = newer ++ (victim, frame) :: older) (hpins : frame.pins = 0)
      (hheld : ∀ entry ∈ older, entry.2.pins ≠ 0) (hx : db.extent? id.table = some x)
      (hread : x.read db.disk id.number = .ok image)
      (hdecode : Page.decode id x.layout image = .ok page)
      (hback : WroteBack (db.counted id.table) victim (.ok () db')) :
      Fetched db id (.ok ⟨page, db'.pool.nextSerial, 0⟩
        ((db'.withCache (db'.pool.cache.erase victim).2).loaded id page))

/-! The parts of a fetch that goes to the disk: the page is sought there, and room is made for it. -/

namespace Database

/-- The page as its table has it on the disk. -/
def sought (id : PageId) : DbM Page := do readPage (← tableOf id.table) id.number

/-- The victim, if there is one, leaves the cache. -/
def makeRoom : Option PageId → DbM Unit
  | none => pure ()
  | some victim => do
    writeBack victim
    drop victim

theorem fetchMissing_run (db : Database) (id : PageId) : (fetchMissing id).run db =
    match chooseVictim.run db with
    | .error e db => .error e db
    | .ok victim db => match (sought id).run db with
      | .error e db => .error e db
      | .ok page db => match (makeRoom victim).run db with
        | .error e db => .error e db
        | .ok () db => .ok ⟨page, db.pool.nextSerial, 0⟩ (db.loaded id page) := by
  simp only [fetchMissing, sought, makeRoom, EStateM.run_bind]
  cases chooseVictim.run db with
  | error e db => rfl
  | ok victim db =>
    simp only
    cases (tableOf id.table).run db with
    | error e db => rfl
    | ok ref db =>
      simp only
      cases (readPage ref id.number).run db with
      | error e db => rfl
      | ok page db =>
        cases victim with
        | none => rfl
        | some victim =>
          simp only [EStateM.run_bind]
          cases (writeBack victim).run db <;> rfl

/-- A frame that nobody holds is gone when it is dropped. -/
theorem drop_run {db : Database} (h : db.pool.cache.InOrder) {id : PageId} {frame : Frame}
    (hframe : db.pool.cache.peek? id = some frame) (hpins : frame.pins = 0) :
    (drop id).run db = .ok () (db.withCache (db.pool.cache.erase id).2) := by
  simp only [drop, modifyPool, EStateM.run_modify, h.fst_erase, hframe, hpins, if_true]
  rfl

theorem drop_run_absent {db : Database} (h : db.pool.cache.InOrder) {id : PageId}
    (habsent : db.pool.cache.peek? id = none) : (drop id).run db = .ok () db := by
  simp only [drop, modifyPool, EStateM.run_modify, h.fst_erase, habsent, h.erase_absent habsent]

end Database

/-- What seeking a page on the disk can come to. -/
inductive Sought (db : Database) (id : PageId) : EStateM.Result Error Database Page → Prop
  | missing {e : Error} (he : e ≠ .allPinned) : Sought db id (.error e db)
  | corrupt {e : Error} (he : e ≠ .allPinned) : Sought db id (.error e (db.counted id.table))
  | found {x : Extent} {image : Bytes} {page : Page} (hx : db.extent? id.table = some x)
      (hread : x.read db.disk id.number = .ok image)
      (hdecode : Page.decode id x.layout image = .ok page) :
      Sought db id (.ok page (db.counted id.table))

namespace Sound

variable {db : Database}

theorem sought_run (h : Sound db) (id : PageId) : Sought db id ((Database.sought id).run db) := by
  cases href : db.ref? id.table with
  | none =>
    simp only [Database.sought, EStateM.run_bind, Database.tableOf_run, href]
    exact .missing (by simp)
  | some ref =>
    obtain ⟨x, hx⟩ := h.registered.exists_extent href
    simp only [Database.sought, EStateM.run_bind, Database.tableOf_run, href,
      h.registered.readPage_run href hx]
    cases hread : x.read db.disk id.number with
    | error fault => exact .missing (by simp)
    | ok image =>
      cases hdecode : Page.decode id x.layout image with
      | error e =>
        obtain ⟨fault, rfl⟩ := Page.corrupt_of_decode hdecode
        simp only [hdecode]
        exact .corrupt (by simp)
      | ok page =>
        simp only [hdecode]
        exact .found hx hread hdecode

/-- **A page is fetched**: this is all that it can come to. -/
theorem fetch_run (h : Sound db) (id : PageId) : Fetched db id ((Database.fetch id).run db) := by
  cases hframe : db.pool.cache.peek? id with
  | some frame =>
    simp only [Database.fetch, EStateM.run_bind, EStateM.run_get, hframe, Database.modifyPool,
      EStateM.run_modify, EStateM.run_pure]
    exact .hit hframe
  | none =>
    simp only [Database.fetch, EStateM.run_bind, EStateM.run_get, hframe,
      Database.fetchMissing_run]
    have hchosen := chooseVictim_run h.inOrder
    have hsought := h.sought_run id
    generalize Database.chooseVictim.run db = chosen at hchosen ⊢
    cases hchosen with
    | crowded hcrowded => exact .crowded hframe hcrowded
    | room hroom =>
      have hfree : ¬ db.Crowded := fun hc => Nat.ne_of_lt hroom hc.1
      simp only
      generalize (Database.sought id).run db = page at hsought ⊢
      cases hsought with
      | missing he => exact .unread hframe hfree he
      | corrupt he => exact .stopped hframe hfree he
      | found hx hread hdecode => exact .room hframe hroom hx hread hdecode
    | @victim newer older victim frame hfull hlist hpins hheld =>
      have hvictim := h.inOrder.peek?_of_split hlist
      have hfree : ¬ db.Crowded := fun hc => hc.2 victim frame hvictim hpins
      simp only
      generalize (Database.sought id).run db = page at hsought ⊢
      cases hsought with
      | missing he => exact .unread hframe hfree he
      | corrupt he => exact .stopped hframe hfree he
      | found hx hread hdecode =>
        have h₁ := h.counted id.table
        have hback := h₁.writeBack_run victim
        simp only [Database.makeRoom, EStateM.run_bind]
        generalize (Database.writeBack victim).run (db.counted id.table) = written at hback ⊢
        cases written with
        | error e db' =>
          obtain ⟨rfl, fault, rfl⟩ := hback.of_error
          exact .stopped hframe hfree (by simp)
        | ok _ db' =>
          obtain ⟨frame', hframe', -, hpins'⟩ := hback.frame h₁ hvictim
          have hdrop := Database.drop_run (h₁.quiets hback.quiets_of_ok).inOrder hframe'
            (hpins'.trans hpins)
          simp only [hdrop]
          exact @Fetched.evicted db id _ _ _ newer older victim frame db' hframe hfull hlist hpins
            hheld hx hread hdecode hback

end Sound

namespace Fetched

variable {db db' : Database} {id : PageId}

/-- A fetch that fails leaves the pool as it was, and the disk. -/
theorem of_error {e : Error} (h : Fetched db id (.error e db')) :
    db' = db ∨ db' = db.counted id.table := by
  cases h with
  | crowded habsent hcrowded => exact Or.inl rfl
  | unread habsent hfree he => exact Or.inl rfl
  | stopped habsent hfree he => exact Or.inr rfl

/-- **However it ends**, a fetch is a run of quiet steps. -/
theorem quiets (h : Sound db) {r : EStateM.Result Error Database Frame} (hf : Fetched db id r) :
    Quiets db (endState r) := by
  have hcount : Quiet db (db.counted id.table) := .count id.table
  have hextent := congrFun (Database.extent?_counted h.registered id.table) id.table
  cases hf with
  | hit hframe => exact .single (.touch id)
  | crowded habsent hcrowded => exact .refl
  | unread habsent hfree he => exact .refl
  | stopped habsent hfree he => exact .single hcount
  | room habsent hroom hx hread hdecode =>
    exact (Relation.ReflTransGen.single hcount).tail
      (.load habsent hroom (hextent.trans hx) hread hdecode)
  | @evicted x image page newer older victim frame db' habsent hfull hlist hpins hheld hx hread
      hdecode hback =>
    have h₁ := h.counted id.table
    have hx₁ := hextent.trans hx
    obtain ⟨hquiets, habsent', hroom', himage⟩ :=
      hback.evict h₁ (h.inOrder.peek?_of_split hlist) hpins habsent
    have hx' := (congrFun (h₁.extent?_quiets hback.quiets_of_ok) id.table).trans hx₁
    -- the page was read before the victim was written, and reads the same behind it
    have hread' : x.read db'.disk id.number = .ok image := by
      rw [Database.image?_of_read hx₁ hread, Database.image?_eq hx'] at himage
      cases hr : x.read db'.disk id.number with
      | error fault =>
        rw [hr] at himage
        cases himage
      | ok image' =>
        rw [hr] at himage
        exact congrArg Except.ok (Option.some.inj himage)
    exact (hquiets.head hcount).tail (.load habsent' hroom' hx' hread' hdecode)

theorem quiets_of_ok (h : Sound db) {frame : Frame} (hf : Fetched db id (.ok frame db')) :
    Quiets db db' := hf.quiets h

theorem quiets_of_error (h : Sound db) {e : Error} (hf : Fetched db id (.error e db')) :
    Quiets db db' := hf.quiets h

/-- The page that was fetched is cached. -/
theorem cached (h : Sound db) {frame : Frame} (hf : Fetched db id (.ok frame db')) :
    db'.pool.cache.peek? id = some frame := by
  cases hf with
  | hit hframe => exact (h.inOrder.peek?_touch id id).trans hframe
  | room habsent hroom hx hread hdecode =>
    exact (h.inOrder.peek?_insert habsent hroom _ id).trans (if_pos rfl)
  | evicted habsent hfull hlist hpins hheld hx hread hdecode hback =>
    have h₁ := h.counted id.table
    obtain ⟨hquiets, habsent', hroom', -⟩ :=
      hback.evict h₁ (h.inOrder.peek?_of_split hlist) hpins habsent
    exact ((h₁.quiets hquiets).inOrder.peek?_insert habsent' hroom' _ id).trans (if_pos rfl)

/-- A page that was not cached comes clean, in a frame that nobody holds. -/
theorem fresh (habsent : db.pool.cache.peek? id = none) {frame : Frame}
    (hf : Fetched db id (.ok frame db')) : frame.page.dirty = false ∧ frame.pins = 0 := by
  cases hf with
  | hit hframe => exact absurd (habsent.symm.trans hframe) (by simp)
  | room _ hroom hx hread hdecode =>
    obtain ⟨-, slots, -, rfl⟩ := Page.decode_cases hdecode
    exact ⟨rfl, rfl⟩
  | evicted _ hfull hlist hpins hheld hx hread hdecode hback =>
    obtain ⟨-, slots, -, rfl⟩ := Page.decode_cases hdecode
    exact ⟨rfl, rfl⟩

end Fetched

end RowStore
