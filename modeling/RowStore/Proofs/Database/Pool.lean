/-
# The pool keeps what disk and cache say

Whatever the pool does by itself, writing pages back, dropping them, loading others, disk and cache
go on to mean the sheets on the shelves: `Mirrors.writeBack`, `Mirrors.drop`, `Mirrors.load`, and
from them `Mirrors.fetch`, in which a page may have to be written and to leave for another.  While
nobody holds a page, a page of a table can always be fetched, in a pool of any capacity.

Changing a cached page is what changes a sheet (`Mirrors.modifyPage`).
-/
import RowStore.Proofs.Database.Shelves

namespace RowStore

/-! ## 1. What a step leaves alone -/

/-- The cache has the same pages as before, and each is held as often. -/
structure Kept (db db' : Database) : Prop where
  size : db'.pool.cache.size = db.pool.cache.size
  capacity : db'.pool.cache.capacity = db.pool.cache.capacity
  pins : ∀ id, (db'.pool.cache.peek? id).map (·.pins) = (db.pool.cache.peek? id).map (·.pins)

theorem Kept.refl (db : Database) : Kept db db := ⟨rfl, rfl, fun _ => rfl⟩

theorem Kept.trans {db db' db'' : Database} (h : Kept db db') (h' : Kept db' db'') : Kept db db'' :=
  ⟨h'.size.trans h.size, h'.capacity.trans h.capacity, fun id => (h'.pins id).trans (h.pins id)⟩

theorem Kept.of_pool {db db' : Database} (h : db'.pool = db.pool) : Kept db db' :=
  ⟨by rw [h], by rw [h], fun id => by rw [h]⟩

theorem Idle.kept {db db' : Database} (h : Idle db) (hk : Kept db db') : Idle db' := by
  intro id frame hframe
  have hpins := hk.pins id
  rw [hframe, Option.map_some, eq_comm, Option.map_eq_some_iff] at hpins
  obtain ⟨old, hold, hold'⟩ := hpins
  rw [← hold']
  exact h id old hold

/-- The state with a pool in which every page is found as before. -/
theorem Mirrors.withPool {db : Database} {shelves : Shelves} (h : Mirrors db shelves) (pool : Pool)
    (hord : pool.cache.InOrder) (hpeek : ∀ id, pool.cache.peek? id = db.pool.cache.peek? id) :
    Mirrors { db with pool } shelves where
  toStands := h.toStands.withPool _
  inOrder := hord
  pages := fun hs hsheet => (h.pages hs hsheet).congr rfl rfl (hpeek _)
  within := fun {id _} hframe => h.within ((hpeek id).symm.trans hframe)

/-- The state with a pool in which all pages but one are found as before, and that one is right. -/
theorem Mirrors.withPoolExcept {db : Database} {shelves : Shelves} (h : Mirrors db shelves)
    (pool : Pool) (hord : pool.cache.InOrder) (id : PageId)
    (hothers : ∀ id', id' ≠ id → pool.cache.peek? id' = db.pool.cache.peek? id')
    (hpage : ∀ s sheet, shelves id.table = some s → s.sheets[id.number]? = some sheet →
      PageMirrors db.disk pool.cache s id sheet)
    (hwithin : ∀ frame, pool.cache.peek? id = some frame →
      ∃ s, shelves id.table = some s ∧ id.number < s.sheets.length) :
    Mirrors { db with pool } shelves where
  toStands := h.toStands.withPool _
  inOrder := hord
  pages := by
    intro id' s sheet hs hsheet
    by_cases hsame : id' = id
    · subst hsame
      exact hpage s sheet hs hsheet
    · exact (h.pages hs hsheet).congr rfl rfl (hothers id' hsame)
  within := by
    intro id' frame hframe
    by_cases hsame : id' = id
    · subst hsame
      exact hwithin frame hframe
    · exact h.within ((hothers id' hsame).symm.trans hframe)

/-! ## 2. Writing back -/

/-- The frame of a page that has been written. -/
def Frame.cleaned (frame : Frame) : Frame := { frame with page := (frame.page.mark false).capture }

namespace Mirrors

variable {db : Database} {shelves : Shelves} {id : PageId} {s : Shelf} {sheet : Sheet}

/-- A cached page is one of its table. -/
theorem exists_sheet (h : Mirrors db shelves) {frame : Frame}
    (hframe : db.pool.cache.peek? id = some frame) :
    ∃ s sheet, shelves id.table = some s ∧ s.sheets[id.number]? = some sheet := by
  obtain ⟨s, hs, hlt⟩ := h.within hframe
  exact ⟨s, _, hs, List.getElem?_eq_getElem hlt⟩

/-- Marking a page as written is right once its image is on the disk. -/
theorem clean (h : Mirrors db shelves) (hs : shelves id.table = some s) {frame : Frame}
    (hframe : db.pool.cache.peek? id = some frame)
    (hread : s.read db.disk id.number = .ok frame.page.encode) :
    Mirrors { db with pool := { db.pool with cache := db.pool.cache.modify id Frame.cleaned } }
      shelves := by
  have hpeek := h.inOrder.peek?_modify id Frame.cleaned
  refine h.withPoolExcept _ (h.inOrder.modify id _) id
    (fun id' hne => (hpeek id').trans (if_neg hne)) (fun s' sheet hs' hsheet => ?_)
    fun _ _ => h.within hframe
  obtain rfl : s = s' := Option.some.inj (hs.symm.trans hs')
  obtain ⟨hv, hid, hlayout, hpage⟩ := (h.pages hs hsheet).cached frame hframe
  have hdecode := hv.decode_encode
  rw [hid, hlayout] at hdecode
  refine ⟨⟨_, _, hread, hdecode, fun _ => hpage⟩, fun frame' hframe' => ?_⟩
  rw [hpeek, if_pos rfl, hframe, Option.map_some, Option.some.injEq] at hframe'
  subst hframe'
  exact ⟨(hv.mark false).capture, hid, hlayout, hpage⟩

/-- **A page is written back**: it is clean then, and nothing is said otherwise than before. -/
theorem writeBack (h : Mirrors db shelves) (id : PageId) :
    ∃ db', (Database.writeBack id).run db = .ok () db' ∧ Mirrors db' shelves ∧ Kept db db' ∧
      ∀ frame, db'.pool.cache.peek? id = some frame → frame.page.dirty = false := by
  cases hframe : db.pool.cache.peek? id with
  | none =>
    refine ⟨db, ?_, h, Kept.refl db, fun frame hf => absurd (hframe.symm.trans hf) (by simp)⟩
    simp only [Database.writeBack, EStateM.run_bind, EStateM.run_get, hframe, EStateM.run_pure]
  | some frame =>
    by_cases hdirty : frame.page.dirty = true
    · obtain ⟨s, sheet, hs, hsheet⟩ := h.exists_sheet hframe
      obtain ⟨hv, hid, hlayout, hpage⟩ := (h.pages hs hsheet).cached frame hframe
      obtain ⟨db₁, hwrite, hpool, hm, hback⟩ := h.writePage hs hsheet hv hid hlayout hpage
      have hframe₁ : db₁.pool.cache.peek? id = some frame := by rw [hpool, hframe]
      have hpeek := hm.inOrder.peek?_modify id Frame.cleaned
      refine ⟨_, ?_, hm.clean hs hframe₁ hback, ?_, ?_⟩
      · simp only [Database.writeBack, EStateM.run_bind, EStateM.run_get, hframe, hdirty, if_true,
          h.tableOf hs, hwrite, Database.modifyPool, EStateM.run_modify]
        rfl
      · refine (Kept.of_pool hpool).trans
          ⟨hm.inOrder.size_modify _ _, Lru.capacity_modify _ _ _, ?_⟩
        intro id'
        rw [hpeek]
        split
        · rw [Option.map_map]
          rfl
        · rfl
      · intro frame' hframe'
        rw [hpeek, if_pos rfl, hframe₁, Option.map_some, Option.some.injEq] at hframe'
        rw [← hframe']
        rfl
    · refine ⟨db, ?_, h, Kept.refl db, fun frame' hf => ?_⟩
      · simp only [Database.writeBack, EStateM.run_bind, EStateM.run_get, hframe, hdirty,
          Bool.false_eq_true, if_false, EStateM.run_pure]
      · rw [hframe, Option.some.injEq] at hf
        rw [← hf]
        exact eq_false_of_ne_true hdirty

theorem writeBackAll (h : Mirrors db shelves) (ids : List PageId) :
    ∃ db', (Database.writeBackAll ids).run db = .ok () db' ∧ Mirrors db' shelves ∧ Kept db db' := by
  induction ids generalizing db with
  | nil => exact ⟨db, rfl, h, Kept.refl db⟩
  | cons id ids ih =>
    obtain ⟨db₁, hrun, hm, hk, -⟩ := h.writeBack id
    obtain ⟨db₂, hrun', hm', hk'⟩ := ih hm
    refine ⟨db₂, ?_, hm', hk.trans hk'⟩
    simp only [Database.writeBackAll, EStateM.run_bind, hrun, hrun']

theorem flushAll (h : Mirrors db shelves) :
    ∃ db', (Database.flushAll).run db = .ok () db' ∧ Mirrors db' shelves ∧ Kept db db' := by
  obtain ⟨db', hrun, hm⟩ := h.writeBackAll (db.pool.cache.toList.map (·.1))
  refine ⟨db', ?_, hm⟩
  simp only [Database.flushAll, EStateM.run_bind, EStateM.run_get, hrun]

theorem flushPage (h : Mirrors db shelves) (id : PageId) :
    ∃ cached db', (Database.flushPage id).run db = .ok cached db' ∧ Mirrors db' shelves ∧
      Kept db db' := by
  obtain ⟨db', hrun, hm, hk, -⟩ := h.writeBack id
  cases hc : db.pool.cache.contains id with
  | true =>
    refine ⟨true, db', ?_, hm, hk⟩
    simp only [Database.flushPage, EStateM.run_bind, EStateM.run_get, hc, if_true, hrun,
      EStateM.run_pure]
  | false =>
    refine ⟨false, db, ?_, h, Kept.refl db⟩
    simp only [Database.flushPage, EStateM.run_bind, EStateM.run_get, hc, Bool.false_eq_true,
      if_false, EStateM.run_pure]

/-! ## 3. Dropping and loading -/

/-- **A clean page leaves the cache**; what it said is on the disk. -/
theorem drop (h : Mirrors db shelves)
    (hclean : ∀ frame, db.pool.cache.peek? id = some frame → frame.page.dirty = false) :
    ∃ db', (Database.drop id).run db = .ok () db' ∧ Mirrors db' shelves ∧
      db'.pool.cache = (db.pool.cache.erase id).2 := by
  have hpeek := h.inOrder.peek?_erase id
  have hgone : (db.pool.cache.erase id).2.peek? id = none := (hpeek id).trans (if_pos rfl)
  refine ⟨_, rfl, ?_, rfl⟩
  refine h.withPoolExcept _ (h.inOrder.erase id) id
    (fun id' hne => (hpeek id').trans (if_neg hne)) (fun s sheet hs hsheet => ?_) ?_
  · obtain ⟨image, page, hread, hdecode, hsays⟩ := (h.pages hs hsheet).onDisk
    refine ⟨⟨image, page, hread, hdecode, fun _ => hsays hclean⟩, fun frame hframe => ?_⟩
    exact absurd (hgone.symm.trans hframe) (by simp)
  · exact fun frame hframe => absurd (hgone.symm.trans hframe) (by simp)

/-- **A page comes into the cache** as it is on the disk. -/
theorem load (h : Mirrors db shelves) (hs : shelves id.table = some s)
    (hsheet : s.sheets[id.number]? = some sheet) (habsent : db.pool.cache.peek? id = none)
    (hroom : db.pool.cache.size < db.pool.cache.capacity) {page : Page} (hv : page.Valid)
    (hid : page.id = id) (hlayout : page.layout = s.layout) (hpage : page.sheet = sheet) :
    ∃ frame db', (Database.load id page).run db = .ok frame db' ∧ Mirrors db' shelves ∧
      frame.pins = 0 ∧ ∀ id', db'.pool.cache.peek? id' =
        if id' = id then some frame else db.pool.cache.peek? id' := by
  have hpeek := h.inOrder.peek?_insert habsent hroom (⟨page, db.pool.nextSerial, 0⟩ : Frame)
  have hfound := (hpeek id).trans (if_pos rfl)
  refine ⟨⟨page, db.pool.nextSerial, 0⟩, _, rfl, ?_, rfl, hpeek⟩
  refine h.withPoolExcept _ (h.inOrder.insert id _) id
    (fun id' hne => (hpeek id').trans (if_neg hne)) (fun s' sheet' hs' hsheet' => ?_)
    fun _ _ => ⟨s, hs, (List.getElem?_eq_some_iff.mp hsheet).1⟩
  obtain rfl : s = s' := Option.some.inj (hs.symm.trans hs')
  obtain rfl : sheet = sheet' := Option.some.inj (hsheet.symm.trans hsheet')
  obtain ⟨image, old, hread, hdecode, hsays⟩ := (h.pages hs hsheet).onDisk
  refine ⟨⟨image, old, hread, hdecode, fun _ => hsays fun frame hframe => ?_⟩, ?_⟩
  · exact absurd (habsent.symm.trans hframe) (by simp)
  · intro frame hframe
    obtain rfl : _ = frame := Option.some.inj (hfound.symm.trans hframe)
    exact ⟨hv, hid, hlayout, hpage⟩

end Mirrors

/-! ## 4. Fetching -/

/-- What choosing a victim can come to: there is room, or a page that nobody holds can go, or all
pages are held. -/
theorem chooseVictim_cases {db : Database} (h : db.pool.cache.InOrder) :
    (db.pool.cache.size < db.pool.cache.capacity ∧
      Database.chooseVictim.run db = .ok none db) ∨
    (∃ victim frame, db.pool.cache.peek? victim = some frame ∧ frame.pins = 0 ∧
      Database.chooseVictim.run db = .ok (some victim) db) ∨
    ((∀ id frame, db.pool.cache.peek? id = some frame → frame.pins ≠ 0) ∧ 0 < db.pool.cache.size ∧
      Database.chooseVictim.run db = .error .allPinned db) := by
  by_cases hroom : db.pool.cache.size < db.pool.cache.capacity
  · refine Or.inl ⟨hroom, ?_⟩
    simp only [Database.chooseVictim, EStateM.run_bind, EStateM.run_get, hroom, if_true,
      EStateM.run_pure]
  · refine Or.inr ?_
    cases ho : db.pool.cache.oldestWhere? fun _ frame => frame.pins == 0 with
    | some entry =>
      obtain ⟨victim, frame⟩ := entry
      obtain ⟨hframe, hpins⟩ := h.peek?_of_oldestWhere? ho
      refine Or.inl ⟨victim, frame, hframe, beq_iff_eq.mp hpins, ?_⟩
      simp only [Database.chooseVictim, EStateM.run_bind, EStateM.run_get, hroom, if_false, ho,
        EStateM.run_pure]
    | none =>
      have hpos := h.capacity_pos
      refine Or.inr ⟨fun id frame hframe hpins => ?_, by omega, ?_⟩
      · exact h.not_accept_of_oldestWhere? ho hframe (beq_iff_eq.mpr hpins)
      · simp only [Database.chooseVictim, EStateM.run_bind, EStateM.run_get, hroom, if_false, ho]
        rfl

namespace Mirrors

variable {db : Database} {shelves : Shelves} {id : PageId} {s : Shelf} {sheet : Sheet}

/-- While nobody holds a page there is room, or a page that can go. -/
theorem chooseVictim (h : Mirrors db shelves) (hidle : Idle db) :
    (db.pool.cache.size < db.pool.cache.capacity ∧
      Database.chooseVictim.run db = .ok none db) ∨
    ∃ victim frame, db.pool.cache.peek? victim = some frame ∧
      Database.chooseVictim.run db = .ok (some victim) db := by
  rcases chooseVictim_cases h.inOrder with
    hroom | ⟨victim, frame, hframe, -, hrun⟩ | ⟨hheld, hsize, -⟩
  · exact Or.inl hroom
  · exact Or.inr ⟨victim, frame, hframe, hrun⟩
  · obtain ⟨id, frame, hframe⟩ := h.inOrder.exists_peek?_of_size hsize
    exact absurd (hidle id frame hframe) (hheld id frame hframe)

/-- A victim is written back and leaves, and there is room then. -/
theorem evict (h : Mirrors db shelves) (hidle : Idle db) {victim : PageId} {frame : Frame}
    (hframe : db.pool.cache.peek? victim = some frame) :
    ∃ db₁ db₂, (Database.writeBack victim).run db = .ok () db₁ ∧
      (Database.drop victim).run db₁ = .ok () db₂ ∧ Mirrors db₂ shelves ∧ Idle db₂ ∧
      db₂.pool.cache.size < db₂.pool.cache.capacity ∧
      ∀ id, db.pool.cache.peek? id = none → db₂.pool.cache.peek? id = none := by
  obtain ⟨db₁, hwrite, hm₁, hk, hclean⟩ := h.writeBack victim
  obtain ⟨db₂, hdrop, hm₂, hcache⟩ := hm₁.drop hclean
  have hpeek := hm₁.inOrder.peek?_erase victim
  rw [← hcache] at hpeek
  have hpins := hk.pins victim
  rw [hframe, Option.map_some, Option.map_eq_some_iff] at hpins
  obtain ⟨frame₁, hframe₁, -⟩ := hpins
  have hsize := hm₁.inOrder.size_erase hframe₁
  rw [← hcache] at hsize
  have hcapacity : db₂.pool.cache.capacity = db₁.pool.cache.capacity := by
    rw [hcache, Lru.capacity_erase]
  have hle := hm₁.inOrder.size_le
  refine ⟨db₁, db₂, hwrite, hdrop, hm₂, fun id frame' hframe' => ?_, by omega, fun id hid => ?_⟩
  · rw [hpeek] at hframe'
    split at hframe'
    · cases hframe'
    · exact hidle.kept hk id frame' hframe'
  · rw [hpeek]
    split
    · rfl
    · have hsame := hk.pins id
      rw [hid, Option.map_none, Option.map_eq_none_iff] at hsame
      exact hsame

/-- A page that is not cached is read, and a victim makes room for it if it must. -/
theorem fetchMissing (h : Mirrors db shelves) (hidle : Idle db) (hs : shelves id.table = some s)
    (hsheet : s.sheets[id.number]? = some sheet) (habsent : db.pool.cache.peek? id = none) :
    ∃ frame db', (Database.fetchMissing id).run db = .ok frame db' ∧ Mirrors db' shelves ∧
      Idle db' ∧ db'.pool.cache.peek? id = some frame := by
  obtain ⟨image, page, hread, hdecode, hsays⟩ := (h.pages hs hsheet).onDisk
  obtain ⟨db₁, hrun₁, hpool₁, hm₁⟩ := h.readPage hs hread hdecode
  have hv := Page.Valid.of_decode hdecode
  have hpage : page.sheet = sheet := hsays fun frame hf => absurd (habsent.symm.trans hf) (by simp)
  obtain ⟨hid, hlayout⟩ : page.id = id ∧ page.layout = s.layout := by
    obtain ⟨-, slots, -, rfl⟩ := Page.decode_cases hdecode
    exact ⟨rfl, rfl⟩
  have hidle₁ : Idle db₁ := hidle.kept (Kept.of_pool hpool₁)
  -- loading is the same whether a victim has left or not
  have hload : ∀ {db₂ : Database}, Mirrors db₂ shelves → Idle db₂ →
      db₂.pool.cache.size < db₂.pool.cache.capacity → db₂.pool.cache.peek? id = none →
      ∃ frame db', (Database.load id page).run db₂ = .ok frame db' ∧ Mirrors db' shelves ∧
        Idle db' ∧ db'.pool.cache.peek? id = some frame := by
    intro db₂ hm₂ hidle₂ hroom habsent₂
    obtain ⟨frame, db', hrun, hm', hpins, hpeek⟩ :=
      hm₂.load hs hsheet habsent₂ hroom hv hid hlayout hpage
    refine ⟨frame, db', hrun, hm', fun id' frame' hframe' => ?_, by rw [hpeek, if_pos rfl]⟩
    rw [hpeek] at hframe'
    split at hframe'
    · cases hframe'
      exact hpins
    · exact hidle₂ id' frame' hframe'
  rcases h.chooseVictim hidle with ⟨hroom, hv⟩ | ⟨victim, frame, hframe, hv⟩
  · obtain ⟨frame, db', hrun, hm'⟩ := hload hm₁ hidle₁ (by rw [hpool₁]; exact hroom)
      (by rw [hpool₁]; exact habsent)
    refine ⟨frame, db', ?_, hm'⟩
    simp only [Database.fetchMissing, EStateM.run_bind, hv, h.tableOf hs, hrun₁, hrun]
  · obtain ⟨db₂, db₃, hwrite, hdrop, hm₃, hidle₃, hroom, hstay⟩ :=
      hm₁.evict hidle₁ (by rw [hpool₁]; exact hframe)
    obtain ⟨frame, db', hrun, hm'⟩ := hload hm₃ hidle₃ hroom
      (hstay id (by rw [hpool₁]; exact habsent))
    refine ⟨frame, db', ?_, hm'⟩
    simp only [Database.fetchMissing, EStateM.run_bind, hv, h.tableOf hs, hrun₁, hwrite, hdrop,
      hrun]

/-- **A page of a table can be fetched**, from the cache or from the disk. -/
theorem fetch (h : Mirrors db shelves) (hidle : Idle db) (hs : shelves id.table = some s)
    (hsheet : s.sheets[id.number]? = some sheet) :
    ∃ frame db', (Database.fetch id).run db = .ok frame db' ∧ Mirrors db' shelves ∧ Idle db' ∧
      db'.pool.cache.peek? id = some frame := by
  cases hframe : db.pool.cache.peek? id with
  | some frame =>
    have hpeek := h.inOrder.peek?_touch id
    refine ⟨frame, { db with pool := { db.pool with cache := db.pool.cache.touch id } }, ?_,
      h.withPool _ (h.inOrder.touch id) hpeek, fun id' frame' hframe' => ?_,
      (hpeek id).trans hframe⟩
    · simp only [Database.fetch, EStateM.run_bind, EStateM.run_get, hframe, Database.modifyPool,
        EStateM.run_modify, EStateM.run_pure]
    · exact hidle id' frame' ((hpeek id').symm.trans hframe')
  | none =>
    obtain ⟨frame, db', hrun, hm'⟩ := h.fetchMissing hidle hs hsheet hframe
    refine ⟨frame, db', ?_, hm'⟩
    simp only [Database.fetch, EStateM.run_bind, EStateM.run_get, hframe, hrun]

/-- A page of no table, or behind its table, cannot be fetched, and nothing changes. -/
theorem fetch_error (h : Mirrors db shelves) (hidle : Idle db) {e : Error}
    (he : (shelves id.table = none ∧ e = .noSuchTable id.table) ∨
      ∃ s, shelves id.table = some s ∧ s.sheets.length ≤ id.number ∧ e = .io .unexpectedEof) :
    (Database.fetch id).run db = .error e db := by
  have habsent : db.pool.cache.peek? id = none := by
    cases hframe : db.pool.cache.peek? id with
    | none => rfl
    | some frame =>
      obtain ⟨s, hs, hlt⟩ := h.within hframe
      rcases he with ⟨hnone, -⟩ | ⟨s', hs', hle, -⟩
      · exact absurd (hs.symm.trans hnone) (by simp)
      · obtain rfl : s = s' := Option.some.inj (hs.symm.trans hs')
        exact absurd hlt (Nat.not_lt.mpr hle)
  obtain ⟨victim, hv⟩ : ∃ victim, Database.chooseVictim.run db = .ok victim db := by
    rcases h.chooseVictim hidle with ⟨-, hv⟩ | ⟨victim, -, -, hv⟩
    · exact ⟨none, hv⟩
    · exact ⟨some victim, hv⟩
  rcases he with ⟨hnone, rfl⟩ | ⟨s, hs, hle, rfl⟩
  · simp only [Database.fetch, EStateM.run_bind, EStateM.run_get, habsent, Database.fetchMissing,
      hv, h.tableOf_none hnone]
  · simp only [Database.fetch, EStateM.run_bind, EStateM.run_get, habsent, Database.fetchMissing,
      hv, h.tableOf hs, h.readPage_behind hs hle]

/-! ## 5. Changing a page -/

/-- **A cached page is changed**, and its sheet with it.  The disk is behind then, which the page
says by being dirty. -/
theorem modifyPage (h : Mirrors db shelves) (hidle : Idle db) (hs : shelves id.table = some s)
    (hsheet : s.sheets[id.number]? = some sheet) {frame : Frame}
    (hframe : db.pool.cache.peek? id = some frame) {page : Page} (hv : page.Valid)
    (hid : page.id = id) (hlayout : page.layout = s.layout) (hdirty : page.dirty = true) :
    ∃ db', (Database.modifyPage id fun _ => page).run db = .ok () db' ∧
      Mirrors db' (shelves.update id.table s (s.sheets.set id.number page.sheet)) ∧ Idle db' := by
  have hord := h.inOrder.modify id fun frame => { frame with page }
  have hpeek := h.inOrder.peek?_modify id fun frame => { frame with page }
  have hfound := hpeek id
  rw [if_pos rfl, hframe, Option.map_some] at hfound
  refine ⟨{ db with pool := { db.pool with
    cache := db.pool.cache.modify id fun frame => { frame with page } } }, rfl, ?_, ?_⟩
  · exact
      { toStands := (h.toStands.update hs List.length_set).withPool _
        inOrder := hord
        pages := by
          intro id' s' sheet' hs' hsheet'
          rcases Shelves.update_eq_some hs' with ⟨htable, rfl⟩ | ⟨htable, hs'⟩
          · by_cases hsame : id' = id
            · subst hsame
              have hlt : id'.number < s.sheets.length := (List.getElem?_eq_some_iff.mp hsheet).1
              rw [List.getElem?_set_self hlt, Option.some.injEq] at hsheet'
              obtain ⟨image, old, hread, hdecode, -⟩ := (h.pages hs hsheet).onDisk
              refine ⟨⟨image, old, hread, hdecode, fun hclean => ?_⟩, fun frame' hframe' => ?_⟩
              · have hc := hclean _ hfound
                rw [hdirty] at hc
                cases hc
              · obtain rfl : _ = frame' := Option.some.inj (hfound.symm.trans hframe')
                exact ⟨hv, hid, hlayout, hsheet'⟩
            · rw [List.getElem?_set_ne (PageId.ne_number hsame htable).symm] at hsheet'
              exact (h.pages (htable ▸ hs) hsheet').congr rfl rfl ((hpeek id').trans (if_neg hsame))
          · have hsame : id' ≠ id := fun e => htable (congrArg PageId.table e)
            exact (h.pages hs' hsheet').congr rfl rfl ((hpeek id').trans (if_neg hsame))
        within := by
          intro id' frame' hframe'
          refine Shelves.within_update hs (Nat.le_of_eq List.length_set.symm) ?_
          have hstays := hpeek id'
          by_cases hsame : id' = id
          · exact hsame ▸ h.within hframe
          · exact h.within ((if_neg hsame ▸ hstays).symm.trans hframe') }
  · intro id' frame' hframe'
    have hstays := hpeek id'
    by_cases hsame : id' = id
    · subst hsame
      obtain rfl : _ = frame' := Option.some.inj (hfound.symm.trans hframe')
      exact hidle id' frame hframe
    · exact hidle id' frame' ((if_neg hsame ▸ hstays).symm.trans hframe')

end Mirrors
end RowStore
