/-
# What has been flushed is there when the tables are opened again

Take any session on ordinary files, and flush all pages at its end.  If that succeeds, the disk has
everything: a new database that opens the same tables on it has as many pages in each of them, and
its scans list the rows that scans would have listed before (`Session.durable`).

Three things are put together.  The files stay ordinary, and so every page of every table can be
read, by whatever way it has come to the disk (`Ordinary.step`).  A flush that succeeds leaves no
cached page dirty (`Sound.flushAll_clean`).  And with no page dirty, a page says what stands on the
disk, whether it is cached or not (`Settled.content?_of_clean`).
-/
import RowStore.Proofs.Database.Coherence
import RowStore.Proofs.Database.Reopening

namespace RowStore

/-! ## 1. Ordinary files stay ordinary -/

namespace File

variable {f f' : File}

theorem marks_write {offset : Nat} {data : Bytes} (h : f.write offset data = .ok f') :
    f'.full = f.full ∧ f'.endless = f.endless := by
  unfold write at h
  split at h
  · cases h
    exact ⟨rfl, rfl⟩
  · split at h <;> cases h
    exact ⟨rfl, rfl⟩

theorem marks_resize {length : Nat} (h : f.resize length = .ok f') :
    f'.full = f.full ∧ f'.endless = f.endless := by
  unfold resize at h
  split at h <;> cases h
  exact ⟨rfl, rfl⟩

end File

namespace Disk

/-- The file takes what is written to it, and ends where its bytes end. -/
def Regular (d : Disk) (path : String) : Prop :=
  ∃ f, d.file? path = some f ∧ f.full = false ∧ f.endless = false

/-- Files stay regular under work that changes their bytes only. -/
theorem Regular.withFile {d d' : Disk} {path p : String} (h : d.Regular p)
    {change : File → Except IoFault File}
    (hchange : ∀ f f', change f = .ok f' → f'.full = f.full ∧ f'.endless = f.endless)
    (hwith : d.withFile path change = .ok d') : d'.Regular p := by
  obtain ⟨f, hf, hfull, hend⟩ := h
  unfold Disk.withFile at hwith
  split at hwith
  · cases hwith
  · rename_i g hg
    cases hresult : change g with
    | error fault =>
      rw [hresult] at hwith
      cases hwith
    | ok g' =>
      rw [hresult] at hwith
      cases hwith
      obtain ⟨hfull', hend'⟩ := hchange g g' hresult
      by_cases hp : p = path
      · subst hp
        obtain rfl : f = g := Option.some.inj (hf.symm.trans hg)
        exact ⟨g', by rw [file?_insert, if_pos rfl], hfull'.trans hfull, hend'.trans hend⟩
      · exact ⟨f, by rw [file?_insert, if_neg hp, hf], hfull, hend⟩

end Disk

theorem Disk.Regular.not_endless {d : Disk} {path : String} (h : d.Regular path) :
    ¬ d.Endless path := by
  obtain ⟨f, hf, -, hend⟩ := h
  rintro ⟨g, hg, hyes⟩
  obtain rfl : f = g := Option.some.inj (hf.symm.trans hg)
  exact Bool.false_ne_true (hend.symm.trans hyes)

namespace Database.Ordinary

variable {db db' : Database}

theorem own_extent (hord : db.Ordinary) {a b : TableId} {x y : Extent}
    (hx : db.extent? a = some x) (hy : db.extent? b = some y) (hpath : x.path = y.path) : a = b := by
  obtain ⟨f, hf, rfl⟩ := exists_table hx
  obtain ⟨g, hg, rfl⟩ := exists_table hy
  exact hord.own hf hg hpath

theorem regular_extent (hord : db.Ordinary) {id : TableId} {x : Extent}
    (hx : db.extent? id = some x) : db.disk.Regular x.path := by
  obtain ⟨f, hf, rfl⟩ := exists_table hx
  exact hord.regular hf

theorem isSome_stored? (hord : db.Ordinary) {id : PageId} {x : Extent}
    (hx : db.extent? id.table = some x) (hlt : id.number < x.count) :
    (db.stored? id).isSome := by
  obtain ⟨f, hf, rfl⟩ := exists_table hx
  obtain ⟨image, page, hread, hdecode⟩ := hord.readable hf hlt
  rw [stored?_of_decode hx (image?_of_read hx hread) hdecode]
  rfl

/-- The files of tables are ordinary if they are so where their extents say. -/
theorem of_extents
    (hown : ∀ {a b x y}, db.extent? a = some x → db.extent? b = some y → x.path = y.path → a = b)
    (hregular : ∀ {id x}, db.extent? id = some x → db.disk.Regular x.path)
    (hstored : ∀ {id x}, db.extent? id.table = some x → id.number < x.count →
      (db.stored? id).isSome) : db.Ordinary where
  own := by
    intro a b f g hf hg hpath
    exact hown (extent?_of_table hf) (extent?_of_table hg) hpath
  regular := by
    intro id f hf
    exact hregular (extent?_of_table hf)
  readable := by
    intro id f number hf hlt
    have hx := extent?_of_table hf
    have hsome := @hstored ⟨id, number⟩ _ hx hlt
    obtain ⟨page, hpage⟩ := Option.isSome_iff_exists.mp hsome
    obtain ⟨y, image, hy, hread, hdecode⟩ := exists_of_stored? hpage
    obtain rfl := Option.some.inj (hx.symm.trans hy)
    exact ⟨image, page, hread, hdecode⟩

theorem of_same (hord : db.Ordinary) (hextent : db'.extent? = db.extent?)
    (hdisk : db'.disk = db.disk) : db'.Ordinary := by
  refine .of_extents (fun hx hy hpath => ?_) (fun hx => ?_) fun hx hlt => ?_
  · rw [hextent] at hx hy
    exact hord.own_extent hx hy hpath
  · rw [hextent] at hx
    rw [hdisk]
    exact hord.regular_extent hx
  · rw [hextent] at hx
    rw [stored?_of_same hextent hdisk]
    exact hord.isSome_stored? hx hlt

/-- The tables are where they were; their files are still regular, and each page can be read. -/
theorem of_alike (hord : db.Ordinary) (halike : Alike db db')
    (hregular : ∀ path, db.disk.Regular path → db'.disk.Regular path)
    (hstored : ∀ {id x}, db'.extent? id.table = some x → id.number < x.count →
      (db'.stored? id).isSome) : db'.Ordinary := by
  refine .of_extents (fun hx hy hpath => ?_) (fun hx => ?_) hstored
  · obtain ⟨x', hx', hpath', -⟩ := halike.symm.exists_extent hx
    obtain ⟨y', hy', hpath'', -⟩ := halike.symm.exists_extent hy
    exact hord.own_extent hx' hy' (hpath'.trans (hpath.trans hpath''.symm))
  · obtain ⟨x', hx', hpath', -⟩ := halike.symm.exists_extent hx
    exact hregular _ (hpath' ▸ hord.regular_extent hx')

/-- A page that can be read is written into the table or right behind it. -/
theorem written (hord : db.Ordinary) (h : Sound db) {table : TableId} {number : Nat} {x : Extent}
    {image : Bytes} {page : Page} {disk : Disk} (hx : db.extent? table = some x)
    (hnumber : number ≤ x.count) (himage : image.length = x.layout.pageSize)
    (hdecode : Page.decode ⟨table, number⟩ x.layout image = .ok page)
    (hwrite : x.write db.disk number image = .ok disk) :
    (db.written table number disk).Ordinary := by
  have hextent := @extent?_written db table number disk h.registered
  refine hord.of_alike (.written db table number disk)
    (fun path hpath => hpath.withFile (fun _ _ => File.marks_write) hwrite) fun {id y} hy hlt => ?_
  by_cases hid : id = ⟨table, number⟩
  · have hback : (db.written table number disk).image? id = some image :=
      (image?_written h hx hnumber himage hwrite id).trans (if_pos hid)
    subst hid
    have hy' := hy
    rw [hextent, if_pos rfl, hx, Option.map_some, Option.some.injEq] at hy'
    subst hy'
    rw [stored?_of_decode hy hback hdecode]
    rfl
  · rw [stored?_written h hx hnumber himage hwrite hid]
    rw [hextent] at hy
    split at hy
    · rename_i htable
      rw [hx, Option.map_some, Option.some.injEq] at hy
      subst hy
      -- a page behind those that there were is the one that is written
      have hne : id.number ≠ number := fun hnum => hid (by rw [← htable, ← hnum])
      have hlt' : id.number < max x.count (number + 1) := hlt
      exact hord.isSome_stored? (htable ▸ hx) (by omega)
    · exact hord.isSome_stored? hy hlt

/-- The last page is cut off. -/
theorem shrunk (hord : db.Ordinary) (h : Sound db) {table : TableId} {number : Nat} {x : Extent}
    {disk : Disk} (hx : db.extent? table = some x) (hcount : x.count = number + 1)
    (hcut : x.cut db.disk number = .ok disk) : (db.shrunk table number disk).Ordinary := by
  refine hord.of_alike (.shrunk db table number disk)
    (fun path hpath => hpath.withFile (fun _ _ => File.marks_resize) hcut) fun {id y} hy hlt => ?_
  rw [extent?_shrunk h.registered] at hy
  split at hy
  · rename_i htable
    rw [hx, Option.map_some, Option.some.injEq] at hy
    subst hy
    have hlt' : id.number < number := hlt
    rw [stored?_shrunk h hx hcount hcut fun _ => hlt']
    exact hord.isSome_stored? (htable ▸ hx) (by omega)
  · rename_i htable
    rw [stored?_shrunk h hx hcount hcut fun htable' => absurd htable' htable]
    exact hord.isSome_stored? hy hlt

/-- **No step** makes a file less ordinary: what is written to it can be read. -/
theorem step (hord : db.Ordinary) (h : Sound db) (hstep : Step db db') : db'.Ordinary := by
  cases hstep with
  | quiet hq =>
    have hextent := (h.quiet hq).2
    cases hq with
    | count table => exact hord.of_same hextent rfl
    | touch id => exact hord.of_same hextent rfl
    | @writeBack id frame x disk hframe hdirty hx hwrite =>
      obtain ⟨y, hy, hadmits⟩ := h.cached hframe
      obtain rfl : x = y := Option.some.inj (hx.symm.trans hy)
      have himage := hadmits.length_encode
      have hlt := hadmits.lt_count ((h.carried hx).not_endless himage hwrite)
      have hdecode := hadmits.valid.decode_encode
      rw [hadmits.id_eq, hadmits.layout_eq] at hdecode
      exact (hord.written h hx (Nat.le_of_lt hlt) himage hdecode hwrite).of_same rfl rfl
    | evict hframe hclean hpins => exact hord.of_same hextent rfl
    | load habsent hroom hx hread hdecode => exact hord.of_same hextent rfl
  | append hx hwrite =>
    exact hord.written h hx (Nat.le_refl _) List.length_replicate (Page.decode_zeroImage _ _) hwrite
  | shrink hx hcount habsent hcut => exact hord.shrunk h hx hcount hcut
  | change change hframe hv hid hlayout hbefore hdirty hserial hpins => exact hord.of_same rfl rfl

theorem steps (hord : db.Ordinary) (h : Sound db) (hsteps : Steps db db') : db'.Ordinary :=
  Sound.steps_induction Ordinary (fun _ _ h hstep hord => hord.step h hstep) h hord hsteps

end Database.Ordinary

/-- No device fills up, or gets room again. -/
def Act.KeepsRoom : Act → Prop
  | .room _ _ => False
  | _ => True

/-- **An act** leaves ordinary files ordinary, but for devices that fill up. -/
theorem Moved.ordinary {s s' : Session} {act : Act} (hm : Moved s act s') (h : Sound s.db)
    (hroom : act.KeepsRoom) (hord : s.db.Ordinary) : s'.db.Ordinary := by
  cases hm with
  | worked rows hsteps => exact hord.steps h hsteps
  | @pinned id db frame hq hframe => exact (hord.steps h hq.steps).of_same rfl rfl
  | released hp => exact hord.of_same rfl rfl
  | discarded => exact hord.of_same rfl rfl
  | edited hp => exact hord.of_same rfl rfl
  | room => exact hroom.elim

theorem Session.ordinary_after {s : Session} (h : Sound s.db) (hord : s.db.Ordinary)
    {acts : List Act} (hacts : ∀ act ∈ acts, act.KeepsRoom) : (s.after acts).db.Ordinary :=
  after_induction (fun s => s.db.Ordinary) Act.KeepsRoom
    (fun _ _ _ h hroom hm hord => hm.ordinary h hroom hord) h hord hacts

/-! ## 2. Flushing leaves nothing dirty -/

/-- No cached page is dirty. -/
def Clean (db : Database) : Prop :=
  ∀ id frame, db.pool.cache.peek? id = some frame → frame.page.dirty = false

/-- What is dirty behind a page that was written back is another page, and was so before. -/
theorem WroteBack.dirty_cases {db db' : Database} {id id' : PageId} {frame : Frame} (h : Sound db)
    (hw : WroteBack db id (.ok () db')) (hframe : db'.pool.cache.peek? id' = some frame)
    (hdirty : frame.page.dirty = true) :
    id' ≠ id ∧ db.pool.cache.peek? id' = some frame := by
  cases hw with
  | idle hclean =>
    refine ⟨?_, hframe⟩
    rintro rfl
    exact absurd (hdirty.symm.trans (hclean frame hframe)) (by simp)
  | written hframe₀ hdirty₀ hx hwrite =>
    rcases h.inOrder.modify_cases hframe with ⟨-, old, -, rfl⟩ | hother
    · exact absurd hdirty (by simp [Frame.cleaned, Page.mark, Page.capture])
    · exact hother

namespace Sound

variable {db db' : Database}

/-- If all dirty pages are among those that are written back, then none is left.  By induction on
the pages, each of which stops being dirty when its turn comes. -/
theorem writeBackAll_clean (h : Sound db) {ids : List PageId}
    (hall : ∀ id frame, db.pool.cache.peek? id = some frame → frame.page.dirty = true → id ∈ ids)
    (hrun : (Database.writeBackAll ids).run db = .ok () db') : Clean db' := by
  induction ids generalizing db with
  | nil =>
    cases hrun
    intro id frame hframe
    exact Bool.eq_false_iff.mpr fun hdirty => absurd (hall id frame hframe hdirty) List.not_mem_nil
  | cons id ids ih =>
    have hback := h.writeBack_run id
    simp only [Database.writeBackAll, EStateM.run_bind] at hrun
    cases hr : (Database.writeBack id).run db with
    | error e db₁ =>
      rw [hr] at hrun
      cases hrun
    | ok _ db₁ =>
      rw [hr] at hrun hback
      refine ih (h.quiets hback.quiets_of_ok) (fun id' frame hframe hdirty => ?_) hrun
      obtain ⟨hne, hframe'⟩ := hback.dirty_cases h hframe hdirty
      exact List.mem_of_ne_of_mem hne (hall id' frame hframe' hdirty)

/-- **A flush that succeeds** leaves no page dirty. -/
theorem flushAll_clean (h : Sound db) (hrun : Database.flushAll.run db = .ok () db') :
    Clean db' := by
  simp only [Database.flushAll, EStateM.run_bind, EStateM.run_get] at hrun
  refine h.writeBackAll_clean (fun id frame hframe _ => ?_) hrun
  exact List.mem_map.mpr ⟨(id, frame), h.inOrder.mem_toList.mpr hframe, rfl⟩

end Sound

/-! ## 3. Clean databases -/

/-- The rows of tables, by one scan after another. -/
def Database.scanEach : List TableId → DbM (List (List Row))
  | [] => return []
  | id :: ids => do
    let rows ← scanTable id
    let rest ← scanEach ids
    return rows :: rest

section Clean

variable {db db' : Database}

/-- With no page dirty, the pages say what stands on the disk. -/
theorem Settled.content?_of_clean (hs : Settled db) (hclean : Clean db) (id : PageId) :
    db.content? id = (db.stored? id).map (·.content) := by
  cases hframe : db.pool.cache.peek? id with
  | none => exact Database.content?_of_absent hframe
  | some frame =>
    rw [Database.content?_of_cached hframe]
    exact (hs id frame hframe (hclean id frame hframe)).symm

/-- Scans that succeed list what the pages of the tables say. -/
theorem Settled.scanEach_eq (hs : Settled db) (h : Sound db) {ids : List TableId}
    {rows : List (List Row)} (hrun : (Database.scanEach ids).run db = .ok rows db') :
    rows = ids.map db.tableRows := by
  induction ids generalizing db rows with
  | nil =>
    cases hrun
    rfl
  | cons id ids ih =>
    have hq := h.scanTable_quiets id
    simp only [Database.scanEach, EStateM.run_bind] at hrun
    cases hr : (Database.scanTable id).run db with
    | error e db₁ =>
      rw [hr] at hrun
      cases hrun
    | ok first db₁ =>
      rw [hr] at hq
      simp only [hr] at hrun
      cases hr' : (Database.scanEach ids).run db₁ with
      | error e db₂ =>
        rw [hr'] at hrun
        cases hrun
      | ok rest db₂ =>
        simp only [hr', EStateM.run_pure] at hrun
        cases hrun
        have hrest := ih (hs.quiets h hq).1 (h.quiets hq) hr'
        rw [hs.scanTable_eq h hr, hrest,
          Database.tableRows_congr (h.extent?_quiets hq) (hs.quiets h hq).2]
        rfl

theorem Mirrors.exists_scanEach {shelves : Shelves} (h : Mirrors db shelves) (hidle : Idle db)
    {ids : List TableId} (hids : ∀ id ∈ ids, (shelves id).isSome) :
    ∃ rows db', (Database.scanEach ids).run db = .ok rows db' := by
  induction ids generalizing db with
  | nil => exact ⟨[], db, rfl⟩
  | cons id ids ih =>
    obtain ⟨s, hs⟩ := Option.isSome_iff_exists.mp (hids id List.mem_cons_self)
    obtain ⟨db₁, hrun, h₁, hidle₁⟩ := h.scanTable hidle hs
    obtain ⟨rest, db₂, hrest⟩ := ih h₁ hidle₁ fun id' hid' => hids id' (List.mem_cons_of_mem _ hid')
    refine ⟨s.table.rows id :: rest, db₂, ?_⟩
    simp only [Database.scanEach, EStateM.run_bind, hrun, hrest, EStateM.run_pure]

end Clean

/-- A table has a shelf, with as many sheets as it has pages. -/
theorem Database.exists_shelf {db : Database} {id : TableId} {f : TableFile}
    (hf : db.table? id = some f) : ∃ s, db.shelves id = some s ∧ s.sheets.length = f.pageCount := by
  rw [table?, Option.bind_eq_some_iff] at hf
  obtain ⟨entry, hentry, hf⟩ := hf
  refine ⟨_, by rw [shelves, hentry, Option.bind_some, hf, Option.map_some], ?_⟩
  rw [List.length_map, List.length_range]

namespace Sound

variable {db : Database}

/-- The tables have as many pages as their files hold whole. -/
theorem opened (h : Sound db) : db.Opened := by
  intro table entry hentry
  have href : db.ref? table = some entry.file := by rw [Database.ref?, hentry, Option.map_some]
  obtain ⟨f, hf, hid⟩ := h.registered _ _ href
  have hx := Database.extent?_of_table ((Database.table?_of_ref href).trans hf)
  have hcount := (h.carried hx).count_eq
  obtain ⟨file, hfile, -⟩ := h.carried hx
  rw [Disk.size, hfile] at hcount
  exact ⟨f, file, hf, hid, hfile, hcount.symm⟩

/-- **Disk and cache of a clean database** mean what is on the disk. -/
theorem mirrors_shelves (h : Sound db) (hord : db.Ordinary) (hs : Settled db) (hclean : Clean db) :
    Mirrors db db.shelves := by
  have hempty : ∀ id, (Lru.empty 1 : Lru PageId Frame).peek? id = none := Lru.peek?_empty 1
  have hdisk := @Database.mirrors_shelves { db with pool := ⟨Lru.empty 1, [], 0⟩ } h.opened
    ⟨hord.own, hord.regular, hord.readable⟩ hempty (Lru.inOrder_empty Nat.one_pos)
  refine { toStands := hdisk.toStands.withPool db.pool, inOrder := h.inOrder, pages := ?_,
           within := ?_ }
  · intro id s sheet hshelf hsheet
    obtain ⟨image, page, hread, hdecode, hsays⟩ := (hdisk.pages hshelf hsheet).onDisk
    have hpage : page.sheet = sheet :=
      hsays fun frame hframe => absurd ((hempty id).symm.trans hframe) (by simp)
    refine ⟨⟨image, page, hread, hdecode, fun _ => hpage⟩, fun frame hframe => ?_⟩
    obtain ⟨f, htable, -, hpath, hlayout, -⟩ := Database.shelves_eq_some hshelf
    have hx := Database.extent?_of_table htable
    obtain ⟨x, hx', hadmits⟩ := h.cached hframe
    obtain rfl := Option.some.inj (hx.symm.trans hx')
    refine ⟨hadmits.valid, hadmits.id_eq, hadmits.layout_eq.trans hlayout, ?_⟩
    rw [Shelf.read, ← hpath, ← hlayout] at hread
    rw [← hlayout] at hdecode
    have hstored := Database.stored?_of_decode hx (Database.image?_of_read hx hread) hdecode
    have hcontent := hs id frame hframe (hclean id frame hframe)
    rw [hstored, Option.map_some, Option.some.injEq] at hcontent
    have hslots : page.slots = frame.page.slots := congrArg Content.slots hcontent
    rw [← hpage, Page.sheet, Page.sheet, hslots]
  · intro id frame hframe
    obtain ⟨x, hx, hadmits⟩ := h.cached hframe
    have hregular := hord.regular_extent hx
    obtain ⟨f, hf, rfl⟩ := Database.exists_table hx
    obtain ⟨s, hs, hcount⟩ := Database.exists_shelf hf
    exact ⟨s, hs, hcount ▸ hadmits.lt_count hregular.not_endless⟩

/-- **Scans of a clean database** succeed if nobody holds a page, and list what the pages say. -/
theorem exists_scanEach (h : Sound db) (hord : db.Ordinary) (hs : Settled db) (hclean : Clean db)
    (hidle : Idle db) {ids : List TableId} (hids : ∀ id ∈ ids, (db.pageCount? id).isSome) :
    ∃ db', (Database.scanEach ids).run db = .ok (ids.map db.tableRows) db' := by
  have hshelves : ∀ id ∈ ids, (db.shelves id).isSome := by
    intro id hid
    have hsome := hids id hid
    rw [Database.pageCount?, Option.isSome_map, Option.isSome_iff_exists] at hsome
    obtain ⟨f, hf⟩ := hsome
    obtain ⟨s, hshelf, -⟩ := Database.exists_shelf hf
    rw [hshelf]
    rfl
  obtain ⟨rows, db', hrun⟩ :=
    (h.mirrors_shelves hord hs hclean).exists_scanEach hidle hshelves
  exact ⟨db', hs.scanEach_eq h hrun ▸ hrun⟩

end Sound

/-- **On the same disk with nothing in the cache**, the tables have the rows that they have in a
clean database. -/
theorem Settled.tableRows_of_empty {db db' : Database} (hs : Settled db) (hclean : Clean db)
    (hextent : db'.extent? = db.extent?) (hdisk : db'.disk = db.disk)
    (hempty : ∀ id, db'.pool.cache.peek? id = none) : db'.tableRows = db.tableRows := by
  refine Database.tableRows_congr hextent (funext fun id => ?_)
  rw [Database.content?_of_absent (hempty id), hs.content?_of_clean hclean,
    Database.stored?_of_same hextent hdisk]

/-! ## 4. The result -/

namespace Session

open Database

/-- **What has been flushed is there when the tables are opened again.**  Take tables that have been
opened on ordinary files, each its own, whose whole pages can be read; any session on them in which
changes through handles are marked; and a flush of all pages at its end that succeeds.  On the disk
that is left, the same tables can be opened again, in a pool of any capacity.  They have as many
pages as before, and scans of any of them list, one after another, what they would have listed
before: what they do list if they succeed, and they do succeed if nobody holds a page. -/
theorem durable {disk : Disk} {pageSize capacity : Nat} {db₀ db₁ db : Database}
    (h₀ : onDisk disk pageSize capacity = .ok db₀) (openings : List Opening)
    (hopen : (openEach openings).run db₀ = .ok () db₁) (hord : db₁.Ordinary) (acts : List Act)
    (hmarked : ∀ act ∈ acts, act.Marked) (hroom : ∀ act ∈ acts, act.KeepsRoom)
    (hflush : flushAll.run ((start db₁).after acts).db = .ok () db) :
    ∀ capacity', 0 < capacity' → ∃ fresh reopened,
      onDisk db.disk pageSize capacity' = .ok fresh ∧
      (openEach openings).run fresh = .ok () reopened ∧
      reopened.pageCount? = db.pageCount? ∧
      ∀ ids, (∀ id ∈ ids, (db.pageCount? id).isSome) → ∃ rows reopened',
        (scanEach ids).run reopened = .ok rows reopened' ∧
        (∀ rows' db', (scanEach ids).run db = .ok rows' db' → rows' = rows) ∧
        (Idle db → ∃ db', (scanEach ids).run db = .ok rows db') := by
  intro capacity' hcapacity'
  obtain rfl := openAll_of_openEach hopen
  obtain ⟨h₁, hempty₁⟩ := sound_openAll h₀ hord.separate
  -- the session, and the flush at its end
  have hstart : Sound (start (db₀.openAll openings)).db := h₁
  have hsettled : Settled (start (db₀.openAll openings)).db := .of_empty hempty₁
  have hacted := sound_after hstart acts
  have hq := hacted.flushAll_quiets
  rw [hflush, endState_ok] at hq
  have h : Sound db := hacted.quiets hq
  have hs : Settled db := ((settled_after hstart hsettled hmarked).quiets hacted hq).1
  have hord' : db.Ordinary := (ordinary_after hstart hord hroom).steps hacted hq.steps
  have hclean : Clean db := hacted.flushAll_clean hflush
  -- the tables that are opened again
  obtain ⟨fresh, reopened, hfresh, hrun, halike, hopened, hdisk, hpool⟩ :=
    exists_reopened h₀ hopen ((stays_after hstart acts).trans hq.steps.stays) hcapacity'
  have hextent := halike.extent?_eq h hdisk hopened
  have hcounts := pageCount?_congr hextent
  have hempty : ∀ id, reopened.pool.cache.peek? id = none := by
    rw [hpool]
    exact Lru.peek?_empty capacity'
  have hordinary : reopened.Ordinary := hord'.of_same hextent hdisk
  have hsound : Sound reopened := by
    refine hordinary.separate.sound hopened hempty ?_
    rw [hpool]
    exact Lru.inOrder_empty hcapacity'
  have hrows := hs.tableRows_of_empty hclean hextent hdisk hempty
  refine ⟨fresh, reopened, hfresh, hrun, hcounts, fun ids hids => ?_⟩
  have hnone : ∀ {id frame}, reopened.pool.cache.peek? id ≠ some frame := fun hframe =>
    absurd ((hempty _).symm.trans hframe) (by simp)
  obtain ⟨reopened', hscan⟩ := hsound.exists_scanEach hordinary (.of_empty hempty)
    (fun _ _ hframe => absurd hframe hnone) (fun _ _ hframe => absurd hframe hnone) (hcounts ▸ hids)
  rw [hrows] at hscan
  exact ⟨_, reopened', hscan, fun rows' db' hscan' => hs.scanEach_eq h hscan',
    fun hidle => h.exists_scanEach hord' hs hclean hidle hids⟩

/-- Two rows come into a pool of one page.  The page of the first is written when it has to leave,
and that of the second at the end; both are there afterwards. -/
theorem durable_two_rows :
    ∃ (acts : List Act) (db fresh reopened reopened' : Database),
      onDisk Sample.disk 8 1 = .ok (Sample.database 1) ∧
      (openEach [Sample.opening]).run (Sample.database 1) = .ok () (Sample.opened 1) ∧
      (Sample.opened 1).Ordinary ∧ (∀ act ∈ acts, act.Marked) ∧ (∀ act ∈ acts, act.KeepsRoom) ∧
      flushAll.run ((start (Sample.opened 1)).after acts).db = .ok () db ∧
      onDisk db.disk 8 2 = .ok fresh ∧
      (openEach [Sample.opening]).run fresh = .ok () reopened ∧
      reopened.pageCount? = db.pageCount? ∧ reopened.pageCount? 0 = some 3 ∧
      (scanEach [0]).run reopened = .ok [[0, 1, 2].map fun number =>
        Sample.row.movedTo (some ⟨⟨0, number⟩, 0⟩)] reopened' := by
  let acts : List Act := [.row Sample.row, .insert 0 0, .row Sample.row, .insert 0 1]
  have h₀ : onDisk Sample.disk 8 1 = .ok (Sample.database 1) := rfl
  have hopen : (openEach [Sample.opening]).run (Sample.database 1) = .ok () (Sample.opened 1) := by
    rw [openEach_cons_run, Sample.opened_eq]
    rfl
  have hord : (Sample.opened 1).Ordinary := Sample.openAll_eq 1 ▸ Sample.ordinary 1
  have hmarked : ∀ act ∈ acts, act.Marked := by
    simp [acts, Act.Marked]
  have hroom : ∀ act ∈ acts, act.KeepsRoom := by
    simp [acts, Act.KeepsRoom]
  obtain ⟨db, hflush⟩ : ∃ db, flushAll.run ((start (Sample.opened 1)).after acts).db = .ok () db :=
    ⟨_, by cbv⟩
  obtain ⟨fresh, reopened, hfresh, hagain, hcounts, hscans⟩ :=
    durable h₀ [Sample.opening] hopen hord acts hmarked hroom hflush 2 Nat.two_pos
  have hcount : (endState (flushAll.run ((start (Sample.opened 1)).after acts).db)).pageCount? 0 =
      some 3 := by cbv
  obtain ⟨db', hrows⟩ : ∃ db',
      (scanEach [0]).run (endState (flushAll.run ((start (Sample.opened 1)).after acts).db)) =
        .ok [[0, 1, 2].map fun number => Sample.row.movedTo (some ⟨⟨0, number⟩, 0⟩)] db' :=
    ⟨_, by cbv⟩
  rw [hflush, endState_ok] at hcount hrows
  obtain ⟨rows, reopened', hscan, hsame, -⟩ := hscans [0] (by simp [hcount])
  rw [← hsame _ _ hrows] at hscan
  exact ⟨acts, db, fresh, reopened, reopened', h₀, hopen, hord, hmarked, hroom, hflush, hfresh,
    hagain, hcounts, (congrFun hcounts 0).trans hcount, hscan⟩

end Session
end RowStore
