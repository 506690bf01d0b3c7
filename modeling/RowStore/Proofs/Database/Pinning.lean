/-
# Pages that are held

The number of holders that a frame knows of is the number of handles to it (`Accounted`), since every
handle is to a cached frame as long as nobody discards pages.  Steps keep this: only a page that
nobody holds leaves the cache, and a page that comes is one that nobody has a handle to
(`Accounted.quiet`).  Getting a page and letting it go change the number on both sides by one.

So a page that is held stays, and can be had again as the same frame; and what the pool knows of a
frame says which pages can make room (`Session.pinning`).
-/
import RowStore.Proofs.Database.Sessions

namespace RowStore

open Database

/-! ## 1. The account -/

/-- The handles are to cached frames, and every frame counts the handles to it. -/
structure Accounted (db : Database) (held : List Pin) (capacity : Nat) : Prop where
  cached : ∀ p ∈ held, ∃ frame, db.pool.cache.peek? p.page = some frame ∧ frame.serial = p.serial
  pins : ∀ id frame, db.pool.cache.peek? id = some frame →
    frame.pins = held.count ⟨id, frame.serial⟩
  /-- Frames that come later get other numbers. -/
  numbered : ∀ id frame, db.pool.cache.peek? id = some frame → frame.serial < db.pool.nextSerial
  detached : db.pool.detached = []
  capacity : db.pool.cache.capacity = capacity

namespace Accounted

variable {db db' : Database} {held : List Pin} {capacity : Nat}

/-- There is no account of a page that is not cached. -/
theorem count_of_absent (ha : Accounted db held capacity) {id : PageId}
    (habsent : db.pool.cache.peek? id = none) (serial : Nat) : held.count ⟨id, serial⟩ = 0 := by
  refine List.count_eq_zero.mpr fun hmem => ?_
  obtain ⟨frame, hframe, -⟩ := ha.cached _ hmem
  exact absurd (habsent.symm.trans hframe) (by simp)

/-- A handle to a page is one to its frame. -/
theorem eq_of_cached (ha : Accounted db held capacity) {p : Pin} (hp : p ∈ held) {id : PageId}
    (hid : p.page = id) {frame : Frame} (hframe : db.pool.cache.peek? id = some frame) :
    p = ⟨id, frame.serial⟩ := by
  subst hid
  obtain ⟨frame', hframe', hserial⟩ := ha.cached p hp
  obtain rfl : frame = frame' := Option.some.inj (hframe.symm.trans hframe')
  rw [hserial]

/-- A frame knows that it is held if there is a handle to its page. -/
theorem pins_ne_zero_iff (ha : Accounted db held capacity) {id : PageId} {frame : Frame}
    (hframe : db.pool.cache.peek? id = some frame) :
    frame.pins ≠ 0 ↔ ∃ p ∈ held, p.page = id := by
  rw [ha.pins id frame hframe, Nat.ne_zero_iff_zero_lt, List.count_pos_iff]
  constructor
  · exact fun hmem => ⟨_, hmem, rfl⟩
  · rintro ⟨p, hp, hid⟩
    rw [← ha.eq_of_cached hp hid hframe]
    exact hp

/-- The same frames are cached, and they have the same holders. -/
theorem congr (ha : Accounted db held capacity)
    (hframes : ∀ id, (db'.pool.cache.peek? id).map (fun frame => (frame.serial, frame.pins)) =
      (db.pool.cache.peek? id).map fun frame => (frame.serial, frame.pins))
    (hnext : db'.pool.nextSerial = db.pool.nextSerial)
    (hdetached : db'.pool.detached = db.pool.detached)
    (hcapacity : db'.pool.cache.capacity = db.pool.cache.capacity) :
    Accounted db' held capacity where
  cached := by
    intro p hp
    obtain ⟨frame, hframe, hserial⟩ := ha.cached p hp
    have hsame := hframes p.page
    rw [hframe, Option.map_some, Option.map_eq_some_iff] at hsame
    obtain ⟨frame', hframe', htag⟩ := hsame
    exact ⟨frame', hframe', (congrArg Prod.fst htag).trans hserial⟩
  pins := by
    intro id frame' hframe'
    have hsame := hframes id
    rw [hframe', Option.map_some, eq_comm, Option.map_eq_some_iff] at hsame
    obtain ⟨frame, hframe, htag⟩ := hsame
    obtain ⟨hserial, hpins⟩ := Prod.mk.inj htag
    rw [← hpins, ← hserial]
    exact ha.pins id frame hframe
  numbered := by
    intro id frame' hframe'
    have hsame := hframes id
    rw [hframe', Option.map_some, eq_comm, Option.map_eq_some_iff] at hsame
    obtain ⟨frame, hframe, htag⟩ := hsame
    rw [← (Prod.mk.inj htag).1, hnext]
    exact ha.numbered id frame hframe
  detached := hdetached.trans ha.detached
  capacity := hcapacity.trans ha.capacity

theorem of_pool (ha : Accounted db held capacity) (hpool : db'.pool = db.pool) :
    Accounted db' held capacity :=
  ha.congr (fun _ => by rw [hpool]) (by rw [hpool]) (by rw [hpool]) (by rw [hpool])

/-- A frame that changes in its page only has the same holders. -/
theorem modify (ha : Accounted db held capacity) (h : db.pool.cache.InOrder) {id : PageId}
    {change : Frame → Frame} (hchange : ∀ frame, db.pool.cache.peek? id = some frame →
      (change frame).serial = frame.serial ∧ (change frame).pins = frame.pins) :
    Accounted (db.withCache (db.pool.cache.modify id change)) held capacity := by
  refine ha.congr (fun id' => ?_) rfl rfl (Lru.capacity_modify _ _ _)
  have hpeek : (db.withCache (db.pool.cache.modify id change)).pool.cache.peek? id' =
      if id' = id then (db.pool.cache.peek? id').map change else db.pool.cache.peek? id' :=
    h.peek?_modify id change id'
  rw [hpeek]
  split
  · rename_i hid
    subst hid
    cases hframe : db.pool.cache.peek? id' with
    | none => rfl
    | some frame =>
      obtain ⟨hserial, hpins⟩ := hchange frame hframe
      simp only [Option.map_some, hserial, hpins]
  · rfl

/-- **A quiet step** keeps the account: nobody holds the page that leaves, and nobody has a handle to
the page that comes. -/
theorem quiet (ha : Accounted db held capacity) (h : Sound db) (hq : Quiet db db') :
    Accounted db' held capacity := by
  cases hq with
  | count table => exact ha.of_pool rfl
  | touch id =>
    refine ha.congr (fun id' => ?_) rfl rfl (Lru.capacity_touch _ _)
    exact congrArg _ (h.inOrder.peek?_touch id id')
  | @writeBack id frame x disk hframe hdirty hx hwrite =>
    exact (ha.of_pool rfl : Accounted (db.written id.table id.number disk) held capacity).modify
      h.inOrder fun _ _ => ⟨rfl, rfl⟩
  | @evict id frame hframe hclean hpins =>
    have hpeek := h.inOrder.peek?_erase id
    have hnone : ¬ ∃ p ∈ held, p.page = id := fun hheld =>
      (ha.pins_ne_zero_iff hframe).mpr hheld hpins
    refine ⟨fun p hp => ?_, fun id' frame' hframe' => ?_, fun id' frame' hframe' => ?_,
      ha.detached, (Lru.capacity_erase _ _).trans ha.capacity⟩
    · obtain ⟨frame', hframe', hserial⟩ := ha.cached p hp
      refine ⟨frame', ?_, hserial⟩
      exact (hpeek p.page).trans ((if_neg fun hid => hnone ⟨p, hp, hid⟩).trans hframe')
    · exact ha.pins id' frame' (h.inOrder.erase_cases hframe').2
    · exact ha.numbered id' frame' (h.inOrder.erase_cases hframe').2
  | @load id x image page habsent hroom hx hread hdecode =>
    refine ⟨fun p hp => ?_, fun id' frame' hframe' => ?_, fun id' frame' hframe' => ?_,
      ha.detached, (Lru.capacity_insert _ _ _).trans ha.capacity⟩
    · obtain ⟨frame', hframe', hserial⟩ := ha.cached p hp
      have hne : p.page ≠ id := by
        rintro rfl
        exact absurd (habsent.symm.trans hframe') (by simp)
      refine ⟨frame', ?_, hserial⟩
      exact (h.inOrder.peek?_insert habsent hroom _ p.page).trans ((if_neg hne).trans hframe')
    · rcases h.inOrder.insert_cases habsent hroom hframe' with ⟨rfl, rfl⟩ | ⟨-, hframe'⟩
      · exact (ha.count_of_absent habsent _).symm
      · exact ha.pins id' frame' hframe'
    · rcases h.inOrder.insert_cases habsent hroom hframe' with ⟨rfl, rfl⟩ | ⟨-, hframe'⟩
      · exact Nat.lt_succ_self _
      · exact Nat.lt_succ_of_lt (ha.numbered id' frame' hframe')

theorem step (ha : Accounted db held capacity) (h : Sound db) (hs : Step db db') :
    Accounted db' held capacity := by
  cases hs with
  | quiet hq => exact ha.quiet h hq
  | append hx hwrite => exact ha.of_pool rfl
  | shrink hx hcount habsent hcut => exact ha.of_pool rfl
  | @change id frame change hframe hv hid hlayout hbefore hdirty hserial hpins =>
    refine ha.modify h.inOrder fun frame' hframe' => ?_
    obtain rfl : frame = frame' := Option.some.inj (hframe.symm.trans hframe')
    exact ⟨hserial, hpins⟩

theorem steps (ha : Accounted db held capacity) (h : Sound db) (hs : Steps db db') :
    Accounted db' held capacity :=
  Sound.steps_induction (Accounted · held capacity) (fun _ _ h hstep ha => ha.step h hstep) h ha hs

theorem numbered_modify (ha : Accounted db held capacity) (h : db.pool.cache.InOrder) {id : PageId}
    {change : Frame → Frame} (hchange : ∀ frame, (change frame).serial = frame.serial) :
    ∀ id' frame, (db.pool.cache.modify id change).peek? id' = some frame →
      frame.serial < db.pool.nextSerial := by
  intro id' frame hframe
  rcases h.modify_cases hframe with ⟨rfl, old, hold, rfl⟩ | ⟨-, hframe⟩
  · rw [hchange]
    exact ha.numbered id' old hold
  · exact ha.numbered id' frame hframe

/-- Another handle, which the frame counts. -/
theorem pinned (ha : Accounted db held capacity) (h : db.pool.cache.InOrder) {id : PageId}
    {frame : Frame} (hframe : db.pool.cache.peek? id = some frame) :
    Accounted (db.withCache (db.pool.cache.modify id Frame.pinned)) (held ++ [⟨id, frame.serial⟩])
      capacity := by
  have hpeek := h.peek?_modify id Frame.pinned
  have hnew := (hpeek id).trans (if_pos rfl)
  rw [hframe, Option.map_some] at hnew
  refine ⟨fun p hp => ?_, fun id' frame' hframe' => ?_,
    ha.numbered_modify h fun _ => rfl, ha.detached, (Lru.capacity_modify _ _ _).trans ha.capacity⟩
  · rcases List.mem_append.mp hp with hp | hp
    · obtain ⟨old, hold, hserial⟩ := ha.cached p hp
      by_cases hid : p.page = id
      · obtain rfl : frame = old := Option.some.inj (hframe.symm.trans (hid ▸ hold))
        exact ⟨frame.pinned, hid ▸ hnew, hserial⟩
      · exact ⟨old, (hpeek p.page).trans ((if_neg hid).trans hold), hserial⟩
    · obtain rfl : p = ⟨id, frame.serial⟩ := List.mem_singleton.mp hp
      exact ⟨frame.pinned, hnew, rfl⟩
  · rw [List.count_append]
    rcases h.modify_cases hframe' with ⟨rfl, old, hold, rfl⟩ | ⟨hne, hframe'⟩
    · obtain rfl : frame = old := Option.some.inj (hframe.symm.trans hold)
      have hone : [(⟨id', frame.serial⟩ : Pin)].count ⟨id', frame.pinned.serial⟩ = 1 :=
        List.count_singleton_self
      rw [hone]
      exact congrArg (· + 1) (ha.pins id' frame hframe)
    · have hzero : [(⟨id, frame.serial⟩ : Pin)].count ⟨id', frame'.serial⟩ = 0 :=
        List.count_eq_zero.mpr fun hmem =>
          hne (congrArg Pin.page (List.mem_singleton.mp hmem))
      rw [hzero]
      exact ha.pins id' frame' hframe'

/-- A handle less, and the frame counts one less. -/
theorem released (ha : Accounted db held capacity) (h : db.pool.cache.InOrder) {handle : Nat}
    {p : Pin} (hp : held[handle]? = some p) :
    Accounted (endState ((unpin p).run db)) (held.eraseIdx handle) capacity := by
  obtain ⟨hlt, hget⟩ := List.getElem?_eq_some_iff.mp hp
  have hmem : p ∈ held := List.mem_of_getElem? hp
  have hperm : (p :: held.eraseIdx handle).Perm held := hget ▸ List.getElem_cons_eraseIdx_perm hlt
  obtain ⟨frame, hframe, hserial⟩ := ha.cached p hmem
  have hrun : (unpin p).run db = .ok () (db.withCache (db.pool.cache.modify p.page fun frame =>
      { frame with pins := frame.pins - 1 })) := by
    simp only [unpin, EStateM.run_bind, modifyPinned_run (isCached_iff.mpr ⟨frame, hframe, hserial⟩)]
    simp only [modifyPool, EStateM.run_modify, withCache, ha.detached, List.filter_nil]
  rw [hrun, endState_ok]
  have hpeek := h.peek?_modify p.page fun frame => { frame with pins := frame.pins - 1 }
  refine ⟨fun q hq => ?_, fun id' frame' hframe' => ?_,
    ha.numbered_modify h fun _ => rfl, ha.detached, (Lru.capacity_modify _ _ _).trans ha.capacity⟩
  · have hq' : q ∈ held := List.mem_of_mem_eraseIdx hq
    obtain ⟨old, hold, hserial'⟩ := ha.cached q hq'
    by_cases hid : q.page = p.page
    · refine ⟨{ old with pins := old.pins - 1 }, ?_, hserial'⟩
      exact (hpeek q.page).trans ((if_pos hid).trans (by rw [hold, Option.map_some]))
    · exact ⟨old, (hpeek q.page).trans ((if_neg hid).trans hold), hserial'⟩
  · have hcount := fun serial => hperm.count_eq (⟨id', serial⟩ : Pin)
    rcases h.modify_cases hframe' with ⟨rfl, old, hold, rfl⟩ | ⟨hne, hframe'⟩
    · obtain rfl : frame = old := Option.some.inj (hframe.symm.trans hold)
      have hself : p = ⟨p.page, frame.serial⟩ := by rw [hserial]
      have hpins := ha.pins p.page frame hframe
      rw [← hcount, ← hself, List.count_cons_self, hself] at hpins
      exact Nat.sub_eq_of_eq_add hpins
    · have hp' : p ≠ ⟨id', frame'.serial⟩ := fun he => hne (congrArg Pin.page he).symm
      rw [ha.pins id' frame' hframe', ← hcount, List.count_cons_of_ne hp']

end Accounted

/-! ## 2. Making room -/

/-- A page has come into a full cache.  The least recently used page without a handle has left, and
has been written just if it was dirty; all others stand behind the new page as they stood. -/
structure Evicted (db db' : Database) (held : List Pin) (id victim : PageId) (frame new : Frame)
    (newer older : List (PageId × Frame)) : Prop where
  before : db.pool.cache.toList = newer ++ (victim, frame) :: older
  free : ∀ p ∈ held, p.page ≠ victim
  heldBehind : ∀ entry ∈ older, ∃ p ∈ held, p.page = entry.1
  after : db'.pool.cache.toList = (id, new) :: (newer ++ older)
  clean : frame.page.dirty = false → db'.disk = db.disk
  dirty : frame.page.dirty = true → ∃ f, db.table? victim.table = some f ∧
    db.disk.write f.path (victim.offset f.layout.pageSize) frame.page.encode = .ok db'.disk
  writes : ∀ table, db'.writes? table = (db.writes? table).map fun n =>
    if frame.page.dirty = true ∧ table = victim.table then n + 1 else n

namespace WroteBack

variable {db db' : Database} {victim : PageId} {frame : Frame}

/-- The page that was written back leaves, and the others keep their order. -/
theorem toList_erase (h : Sound db) (hw : WroteBack db victim (.ok () db'))
    {newer older : List (PageId × Frame)}
    (hlist : db.pool.cache.toList = newer ++ (victim, frame) :: older) :
    (db'.pool.cache.erase victim).2.toList = newer ++ older := by
  cases hw with
  | idle hclean => exact h.inOrder.toList_erase hlist
  | written hframe hdirty hx hwrite =>
    exact (h.inOrder.modify victim Frame.cleaned).toList_erase
      (h.inOrder.toList_modify hlist Frame.cleaned)

/-- Nothing is written of a clean page. -/
theorem of_clean (hw : WroteBack db victim (.ok () db'))
    (hframe : db.pool.cache.peek? victim = some frame) (hclean : frame.page.dirty = false) :
    db' = db := by
  cases hw with
  | idle => rfl
  | @written frame' x disk hframe' hdirty hx hwrite =>
    obtain rfl : frame = frame' := Option.some.inj (hframe.symm.trans hframe')
    exact absurd (hclean.symm.trans hdirty) (by simp)

/-- A dirty page is written to its place, once. -/
theorem of_dirty (h : Sound db) (hw : WroteBack db victim (.ok () db'))
    (hframe : db.pool.cache.peek? victim = some frame) (hdirty : frame.page.dirty = true) :
    (∃ x, db.extent? victim.table = some x ∧
      x.write db.disk victim.number frame.page.encode = .ok db'.disk) ∧
    ∀ table, db'.writes? table =
      (db.writes? table).map fun n => if table = victim.table then n + 1 else n := by
  cases hw with
  | idle hclean => exact absurd ((hclean frame hframe).symm.trans hdirty) (by simp)
  | @written frame' x disk hframe' _ hx hwrite =>
    obtain rfl : frame = frame' := Option.some.inj (hframe.symm.trans hframe')
    exact ⟨⟨x, hx, hwrite⟩, @writes?_written db victim.table victim.number disk h.registered⟩

end WroteBack

/-- **A page that comes into a full cache** takes the place of the least recently used one that has no
handle. -/
theorem Accounted.evicted {db db' : Database} {held : List Pin} {capacity : Nat}
    (ha : Accounted db held capacity) (h : Sound db) {id : PageId}
    (habsent : db.pool.cache.peek? id = none)
    (hfull : db.pool.cache.size = db.pool.cache.capacity) {new : Frame}
    (hf : Fetched db id (.ok new db')) :
    ∃ victim frame newer older, Evicted db db' held id victim frame new newer older := by
  cases hf with
  | hit hframe => exact absurd (habsent.symm.trans hframe) (by simp)
  | room _ hroom hx hread hdecode => exact absurd hfull (Nat.ne_of_lt hroom)
  | @evicted x image page newer older victim frame db₁ _ _ hlist hpins hheld hx hread hdecode
      hback =>
    have h₁ := h.counted id.table
    have hframe := h.inOrder.peek?_of_split hlist
    obtain ⟨hquiets, habsent', hroom', -⟩ := hback.evict h₁ hframe hpins habsent
    have hnew := (h₁.quiets hquiets).inOrder.toList_insert habsent' hroom'
      (⟨page, db₁.pool.nextSerial, 0⟩ : Frame)
    have hrest := hback.toList_erase h₁ hlist
    refine ⟨victim, frame, newer, older, hlist, fun p hp hid => ?_, fun entry hentry => ?_,
      hnew.trans (congrArg _ hrest), fun hclean => ?_, fun hdirty => ?_, fun table => ?_⟩
    · exact (ha.pins_ne_zero_iff hframe).mpr ⟨p, hp, hid⟩ hpins
    · have hmem : entry ∈ db.pool.cache.toList := by
        rw [hlist]
        exact List.mem_append_right _ (List.mem_cons_of_mem _ hentry)
      exact (ha.pins_ne_zero_iff (h.inOrder.mem_toList.mp hmem)).mp (hheld entry hentry)
    · rw [hback.of_clean hframe hclean]
      rfl
    · obtain ⟨⟨y, hy, hwrite⟩, -⟩ := hback.of_dirty h₁ hframe hdirty
      rw [extent?_counted h.registered] at hy
      obtain ⟨f, hf, rfl⟩ := exists_table hy
      exact ⟨f, hf, hwrite⟩
    · have hsame : ((db₁.withCache (db₁.pool.cache.erase victim).2).loaded id page).writes? table =
          db₁.writes? table := rfl
      rw [hsame]
      cases hdirty : frame.page.dirty with
      | false =>
        rw [hback.of_clean hframe hdirty, writes?_counted h.registered]
        simp
      | true =>
        rw [(hback.of_dirty h₁ hframe hdirty).2 table, writes?_counted h.registered]
        simp

/-! ## 3. The result -/

namespace Moved

variable {s s' : Session} {act : Act} {capacity : Nat}

/-- **An act** that discards no page keeps the account. -/
theorem accounted (hm : Moved s act s') (h : Sound s.db) (hact : ∀ id, act ≠ .discard id)
    (ha : Accounted s.db s.held capacity) : Accounted s'.db s'.held capacity := by
  cases hm with
  | worked rows hs => exact ha.steps h hs
  | pinned hq hframe => exact (ha.steps h hq.steps).pinned (h.quiets hq).inOrder hframe
  | released hp => exact ha.released h.inOrder hp
  | @discarded id => exact absurd rfl (hact id)
  | @edited handle ops p hp =>
    obtain ⟨frame, hframe, hserial⟩ := ha.cached p (List.mem_of_getElem? hp)
    rw [modifyPinned_run (isCached_iff.mpr ⟨frame, hframe, hserial⟩)]
    exact ha.modify h.inOrder fun _ _ => ⟨rfl, rfl⟩
  | room => exact ha.of_pool rfl

end Moved

namespace Session

/-- What holding pages comes to in a session, for a pool of some capacity. -/
structure Pinning (s : Session) (capacity : Nat) : Prop where
  /-- A page that is held is cached, in the frame to which the handle is. -/
  stays : ∀ p ∈ s.held, ∃ frame, s.db.pool.cache.peek? p.page = some frame ∧
    frame.serial = p.serial
  /-- Getting a page that is held gives the handle again. -/
  again : ∀ p ∈ s.held, ∃ s', (perform (.get p.page)).run s = .ok () s' ∧
    s'.held = s.held ++ [p]
  /-- There is one frame for a page: all handles to it are the same, and none is to a frame that is
  not cached. -/
  single : (∀ p ∈ s.held, ∀ q ∈ s.held, p.page = q.page → p = q) ∧ s.db.pool.detached = []
  /-- A page that comes later comes in a frame with another number. -/
  numbered : ∀ id frame, s.db.pool.cache.peek? id = some frame →
    frame.serial < s.db.pool.nextSerial
  bounded : s.db.pool.cache.toList.length ≤ capacity
  distinct : (s.db.pool.cache.toList.map (·.1)).Nodup
  /-- A page cannot be had for want of room just if the cache is full of pages that are held. -/
  refused : ∀ id, s.db.pool.cache.peek? id = none →
    ((∃ s', (perform (.get id)).run s = .error .allPinned s') ↔
      s.db.pool.cache.toList.length = capacity ∧
        ∀ entry ∈ s.db.pool.cache.toList, ∃ p ∈ s.held, p.page = entry.1)
  /-- A page that comes into a full cache takes the place of the least recently used one that is not
  held. -/
  evicts : ∀ id s', s.db.pool.cache.peek? id = none →
    s.db.pool.cache.toList.length = capacity → (perform (.get id)).run s = .ok () s' →
      ∃ victim frame new newer older, Evicted s.db s'.db s.held id victim frame new newer older

/-- The cache is full of pages that are held, by the pool or by the account. -/
theorem crowded_iff {s : Session} {capacity : Nat} (h : Sound s.db)
    (ha : Accounted s.db s.held capacity) : s.db.Crowded ↔
      s.db.pool.cache.toList.length = capacity ∧
        ∀ entry ∈ s.db.pool.cache.toList, ∃ p ∈ s.held, p.page = entry.1 := by
  rw [Crowded, h.inOrder.shows.size_eq, ha.capacity]
  refine and_congr_right fun _ => ⟨fun hall entry hentry => ?_, fun hall id frame hframe => ?_⟩
  · have hframe := h.inOrder.mem_toList.mp hentry
    exact (ha.pins_ne_zero_iff hframe).mp (hall entry.1 entry.2 hframe)
  · exact (ha.pins_ne_zero_iff hframe).mpr (hall (id, frame) (h.inOrder.mem_toList.mpr hframe))

theorem pinning_of_accounted {s : Session} {capacity : Nat} (h : Sound s.db)
    (ha : Accounted s.db s.held capacity) : s.Pinning capacity where
  stays := ha.cached
  again := by
    intro p hp
    obtain ⟨frame, hframe, hserial⟩ := ha.cached p hp
    have hrun : (fetch p.page).run s.db =
        .ok frame (s.db.withCache (s.db.pool.cache.touch p.page)) := by
      simp only [fetch, EStateM.run_bind, EStateM.run_get, hframe, modifyPool, EStateM.run_modify,
        EStateM.run_pure]
      rfl
    have hsame : (⟨p.page, frame.serial⟩ : Pin) = p := by rw [hserial]
    rw [perform_get, hrun]
    exact ⟨_, rfl, congrArg (s.held ++ [·]) hsame⟩
  single := by
    refine ⟨fun p hp q hq hpage => ?_, ha.detached⟩
    obtain ⟨frame, hframe, -⟩ := ha.cached q hq
    rw [ha.eq_of_cached hp hpage hframe, ha.eq_of_cached hq rfl hframe]
  numbered := ha.numbered
  bounded := by
    rw [← ha.capacity]
    exact h.inOrder.shows.length_le
  distinct := h.inOrder.shows.nodup_keys
  refused := by
    intro id habsent
    rw [← crowded_iff h ha, perform_get]
    have hfetch := h.fetch_run id
    generalize (fetch id).run s.db = r at hfetch
    cases hfetch with
    | hit hframe => exact absurd (habsent.symm.trans hframe) (by simp)
    | crowded _ hcrowded => exact ⟨fun _ => hcrowded, fun _ => ⟨_, rfl⟩⟩
    | unread _ hfree he =>
      refine ⟨?_, fun hc => absurd hc hfree⟩
      rintro ⟨s', hs'⟩
      cases hs'
      exact absurd rfl he
    | stopped _ hfree he =>
      refine ⟨?_, fun hc => absurd hc hfree⟩
      rintro ⟨s', hs'⟩
      cases hs'
      exact absurd rfl he
    | room _ hroom hx hread hdecode =>
      refine ⟨?_, fun hc => absurd hc.1 (Nat.ne_of_lt hroom)⟩
      rintro ⟨s', hs'⟩
      cases hs'
    | evicted _ hfull hlist hpins hheld hx hread hdecode hback =>
      refine ⟨?_, fun hc => absurd hpins (hc.2 _ _ (h.inOrder.peek?_of_split hlist))⟩
      rintro ⟨s', hs'⟩
      cases hs'
  evicts := by
    intro id s' habsent hfull hrun
    have hfetch := h.fetch_run id
    rw [perform_get] at hrun
    generalize (fetch id).run s.db = r at hfetch hrun
    cases r with
    | error e db => cases hrun
    | ok new db =>
      cases hrun
      have hsize : s.db.pool.cache.size = s.db.pool.cache.capacity := by
        rw [h.inOrder.shows.size_eq, ha.capacity, hfull]
      obtain ⟨victim, frame, newer, older, he⟩ := ha.evicted h habsent hsize hfetch
      have hord := (h.quiets (hfetch.quiets_of_ok h)).inOrder
      have hfront : db.pool.cache.toList = [] ++ (id, new) :: (newer ++ older) := he.after
      -- the new page is pinned where it stands
      exact ⟨victim, frame, new.pinned, newer, older, he.before, he.free, he.heldBehind,
        hord.toList_modify hfront Frame.pinned, he.clean, he.dirty, he.writes⟩

/-- **Pages that are held stay, and the least recently used of the others make room.**  Take tables
that any openings have led to, each with a file of its own, and any session in which no page is
discarded, operations of several users following one another in any order. -/
theorem pinning {disk : Disk} {pageSize capacity : Nat} {db₀ : Database}
    (h₀ : onDisk disk pageSize capacity = .ok db₀) (openings : List Opening)
    (hseparate : (db₀.openAll openings).Separate) (acts : List Act)
    (hacts : ∀ act ∈ acts, ∀ id, act ≠ .discard id) :
    ((start (db₀.openAll openings)).after acts).Pinning capacity := by
  obtain ⟨h, hempty⟩ := sound_openAll h₀ hseparate
  have hpool : (db₀.openAll openings).pool = ⟨Lru.empty capacity, [], 0⟩ := by
    rw [onDisk_eq disk pageSize (capacity_pos_of_onDisk h₀), Except.ok.injEq] at h₀
    rw [pool_openAll, ← h₀]
  have hstart : Accounted (db₀.openAll openings) [] capacity :=
    ⟨fun p hp => absurd hp List.not_mem_nil,
      fun id frame hframe => absurd ((hempty id).symm.trans hframe) (by simp),
      fun id frame hframe => absurd ((hempty id).symm.trans hframe) (by simp), by rw [hpool],
      by rw [hpool]; rfl⟩
  exact pinning_of_accounted (sound_after h acts)
    (after_induction (fun s => Accounted s.db s.held capacity) (fun act => ∀ id, act ≠ .discard id)
      (fun _ _ _ h hact hm ha => hm.accounted h hact ha) h hstart hacts)

/-- The least recently used page of a full cache is held, so the other one makes room. -/
theorem pinning_around_held :
    ∃ (acts : List Act) (s : Session), onDisk Sample.disk 8 2 = .ok (Sample.database 2) ∧
      ((Sample.database 2).openAll [Sample.opening]).Separate ∧
      (∀ act ∈ acts, ∀ id, act ≠ .discard id) ∧
      s = (start ((Sample.database 2).openAll [Sample.opening])).after acts ∧ s.Pinning 2 ∧
      s.held = [⟨⟨0, 0⟩, 0⟩] ∧
      s.db.pool.cache.toList.map (·.1) = [⟨0, 1⟩, ⟨0, 0⟩] ∧
      (s.after [.get ⟨0, 2⟩]).db.pool.cache.toList.map (·.1) = [⟨0, 2⟩, ⟨0, 0⟩] := by
  let acts : List Act := [.get ⟨0, 0⟩, .row Sample.row, .insert 0 0, .append 0]
  have h₀ : onDisk Sample.disk 8 2 = .ok (Sample.database 2) := rfl
  have hacts : ∀ act ∈ acts, ∀ id, act ≠ .discard id := by simp [acts]
  have hseparate := (Sample.ordinary 2).separate
  refine ⟨acts, _, h₀, hseparate, hacts, rfl, pinning h₀ _ hseparate acts hacts, ?_⟩
  rw [Sample.openAll_eq]
  exact ⟨by cbv, by cbv, by cbv⟩

end Session
end RowStore
