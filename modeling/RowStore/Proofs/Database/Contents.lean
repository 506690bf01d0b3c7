/-
# The copies of a page

A cached page has up to three copies: its slots in the cache, the image from before its last changes,
and the bytes on the disk.  Two things tie them together.  A clean page says what the bytes on the
disk decode to (`Settled`), and the image from before the changes is those bytes (`Captured`).  Every
step of a database keeps both (`Settled.step`, `Captured.step`).

What a page says is the cached page if it is cached, and the one on the disk otherwise.  On a
settled database no quiet step changes what any page says (`Settled.quiets`): a page may be
written, leave the cache and come back.  Appending a page and taking the last one away change what
that page says and no other (`content?_append`, `content?_shrink`).
-/
import RowStore.Proofs.Database.Steps

namespace RowStore

/-! ## 1. Images -/

namespace Database

variable {db db' : Database}

theorem image?_of_same (hextent : db'.extent? = db.extent?) (hdisk : db'.disk = db.disk) :
    db'.image? = db.image? := by
  funext id
  rw [image?, image?, hextent, hdisk]

/-- The same bytes under the same layout decode to the same page. -/
theorem stored?_congr {id : PageId} (hlayout : (db'.extent? id.table).map (·.layout) =
    (db.extent? id.table).map (·.layout)) (himage : db'.image? id = db.image? id) :
    db'.stored? id = db.stored? id := by
  rw [stored?, stored?, himage]
  cases hx : db.extent? id.table with
  | none =>
    rw [hx, Option.map_none, Option.map_eq_none_iff] at hlayout
    rw [hlayout]
  | some x =>
    rw [hx, Option.map_some, Option.map_eq_some_iff] at hlayout
    obtain ⟨x', hx', hsame⟩ := hlayout
    simp only [hx', Option.bind_some, hsame]

theorem stored?_of_same (hextent : db'.extent? = db.extent?) (hdisk : db'.disk = db.disk) :
    db'.stored? = db.stored? := by
  funext id
  exact stored?_congr (by rw [hextent]) (by rw [image?_of_same hextent hdisk])

/-- With the same pages in the cache and the same on the disk, every page says the same. -/
theorem content?_congr {id : PageId} (hpool : db'.pool = db.pool)
    (hstored : db'.stored? id = db.stored? id) : db'.content? id = db.content? id := by
  rw [content?, content?, hpool, hstored]

section Write

variable {table : TableId} {number : Nat} {x : Extent} {image : Bytes} {disk : Disk}

theorem layout_written (h : db.Registered) (id : TableId) :
    ((db.written table number disk).extent? id).map (·.layout) =
      (db.extent? id).map (·.layout) := by
  rw [extent?_written h]
  split
  · rename_i hid
    rw [hid, Option.map_map]
    rfl
  · rfl

theorem layout_shrunk (h : db.Registered) (id : TableId) :
    ((db.shrunk table number disk).extent? id).map (·.layout) =
      (db.extent? id).map (·.layout) := by
  rw [extent?_shrunk h]
  split
  · rename_i hid
    rw [hid, Option.map_map]
    rfl
  · rfl

/-- **A write** puts its image in its place, and leaves every other page of every table. -/
theorem image?_written (h : Sound db) (hx : db.extent? table = some x) (hnumber : number ≤ x.count)
    (himage : image.length = x.layout.pageSize) (hwrite : x.write db.disk number image = .ok disk)
    (id : PageId) : (db.written table number disk).image? id =
      if id = ⟨table, number⟩ then some image else db.image? id := by
  obtain ⟨-, hback, hrest, hother, -⟩ := (h.carried hx).write hnumber himage hwrite
  by_cases htable : id.table = table
  · have hx' : (db.written table number disk).extent? id.table =
        some { x with count := max x.count (number + 1) } := by
      rw [extent?_written h.registered, if_pos htable, hx, Option.map_some]
    have hx₀ : db.extent? id.table = some x := by rw [htable, hx]
    rw [image?_eq hx', image?_eq hx₀]
    by_cases hnum : id.number = number
    · rw [if_pos (by rw [← htable, ← hnum])]
      have hread : Extent.read { x with count := max x.count (number + 1) } disk id.number =
          .ok image := by rw [hnum]; exact hback
      exact congrArg Except.toOption hread
    · rw [if_neg fun hid => hnum (congrArg PageId.number hid)]
      exact congrArg Except.toOption (hrest _ hnum)
  · rw [if_neg fun hid => htable (congrArg PageId.table hid)]
    rw [image?, image?, extent?_written h.registered, if_neg htable]
    cases hy : db.extent? id.table with
    | none => rfl
    | some y =>
      have hpath : y.path ≠ x.path := fun hpath => htable (h.apart hy hx hpath)
      exact congrArg Except.toOption (Disk.read_congr (hother _ hpath) _ _)

theorem stored?_written (h : Sound db) (hx : db.extent? table = some x) (hnumber : number ≤ x.count)
    (himage : image.length = x.layout.pageSize) (hwrite : x.write db.disk number image = .ok disk)
    {id : PageId} (hid : id ≠ ⟨table, number⟩) :
    (db.written table number disk).stored? id = db.stored? id :=
  stored?_congr (layout_written h.registered _)
    ((image?_written h hx hnumber himage hwrite id).trans (if_neg hid))

/-- **Cutting** leaves the pages in front of the cut. -/
theorem image?_shrunk (h : Sound db) (hx : db.extent? table = some x)
    (hcount : x.count = number + 1) (hcut : x.cut db.disk number = .ok disk) {id : PageId}
    (hid : id.table = table → id.number < number) :
    (db.shrunk table number disk).image? id = db.image? id := by
  have hcarried := h.carried hx
  rw [hcount] at hcarried
  obtain ⟨-, -, hrest, hother, -⟩ := hcarried.cut hcut
  rw [image?, image?, extent?_shrunk h.registered]
  by_cases htable : id.table = table
  · rw [if_pos htable, htable, hx, Option.map_some, Option.bind_some, Option.bind_some]
    exact congrArg Except.toOption (hrest _ (hid htable))
  · rw [if_neg htable]
    cases hy : db.extent? id.table with
    | none => rfl
    | some y =>
      have hpath : y.path ≠ x.path := fun hpath => htable (h.apart hy hx hpath)
      exact congrArg Except.toOption (Disk.read_congr (hother _ hpath) _ _)

theorem stored?_shrunk (h : Sound db) (hx : db.extent? table = some x)
    (hcount : x.count = number + 1) (hcut : x.cut db.disk number = .ok disk) {id : PageId}
    (hid : id.table = table → id.number < number) :
    (db.shrunk table number disk).stored? id = db.stored? id :=
  stored?_congr (layout_shrunk h.registered _) (image?_shrunk h hx hcount hcut hid)

end Write

/-! ## 2. Which cached pages a step can reach -/

/-- The page that is appended is not cached. -/
theorem ne_of_append (h : Sound db) {table : TableId} {x : Extent} {disk : Disk}
    (hx : db.extent? table = some x)
    (hwrite : x.write db.disk x.count (Page.zeroImage x.layout.pageSize) = .ok disk) {id : PageId}
    {frame : Frame} (hframe : db.pool.cache.peek? id = some frame) : id ≠ ⟨table, x.count⟩ := by
  rintro rfl
  obtain ⟨y, hy, hadmits⟩ := h.cached hframe
  obtain rfl : x = y := Option.some.inj (hx.symm.trans hy)
  exact Nat.lt_irrefl _
    (hadmits.lt_count ((h.carried hx).not_endless List.length_replicate hwrite))

theorem absent_of_append (h : Sound db) {table : TableId} {x : Extent} {disk : Disk}
    (hx : db.extent? table = some x)
    (hwrite : x.write db.disk x.count (Page.zeroImage x.layout.pageSize) = .ok disk) :
    db.pool.cache.peek? ⟨table, x.count⟩ = none := by
  cases hframe : db.pool.cache.peek? ⟨table, x.count⟩ with
  | none => rfl
  | some frame => exact absurd rfl (ne_of_append h hx hwrite hframe)

/-- A page that is cached when the last one is cut off stands in front of it. -/
theorem lt_of_shrink (h : Sound db) {table : TableId} {x : Extent} {number : Nat} {disk : Disk}
    (hx : db.extent? table = some x) (hcount : x.count = number + 1)
    (habsent : db.pool.cache.peek? ⟨table, number⟩ = none)
    (hcut : x.cut db.disk number = .ok disk) {id : PageId} {frame : Frame}
    (hframe : db.pool.cache.peek? id = some frame) (htable : id.table = table) :
    id.number < number := by
  have hcarried := h.carried hx
  rw [hcount] at hcarried
  obtain ⟨-, hend, -⟩ := hcarried.cut hcut
  obtain ⟨y, hy, hadmits⟩ := h.cached hframe
  obtain rfl : x = y := Option.some.inj (hx.symm.trans (htable ▸ hy))
  have hlt := hadmits.lt_count hend
  have hne : id.number ≠ number := by
    rintro rfl
    subst htable
    exact absurd (habsent.symm.trans hframe) (by simp)
  omega

end Database

/-! ## 3. The two ties -/

/-- A clean cached page says what is on the disk. -/
def Settled (db : Database) : Prop :=
  ∀ id frame, db.pool.cache.peek? id = some frame → frame.page.dirty = false →
    (db.stored? id).map (·.content) = some frame.page.content

/-- The image of a cached page from before its last changes is what is on the disk. -/
def Captured (db : Database) : Prop :=
  ∀ id frame, db.pool.cache.peek? id = some frame → db.image? id = some frame.page.before

namespace Settled

variable {db db' : Database}

theorem of_empty (hempty : ∀ id, db.pool.cache.peek? id = none) : Settled db :=
  fun id _ hframe => absurd ((hempty id).symm.trans hframe) (by simp)

/-- A page that is written reads back as it was. -/
theorem stored?_cleaned (h : Sound db) {id : PageId} {frame : Frame} {x : Extent} {disk : Disk}
    (hframe : db.pool.cache.peek? id = some frame) (hx : db.extent? id.table = some x)
    (hwrite : x.write db.disk id.number frame.page.encode = .ok disk) :
    (db.written id.table id.number disk).stored? id =
      some { frame.page with dirty := false, before := frame.page.encode } ∧
    (db.written id.table id.number disk).image? id = some frame.page.encode ∧
    ∀ id', id' ≠ id → (db.written id.table id.number disk).image? id' = db.image? id' ∧
      (db.written id.table id.number disk).stored? id' = db.stored? id' := by
  obtain ⟨y, hy, hadmits⟩ := h.cached hframe
  obtain rfl : x = y := Option.some.inj (hx.symm.trans hy)
  have himage := hadmits.length_encode
  have hle := Nat.le_of_lt (hadmits.lt_count ((h.carried hx).not_endless himage hwrite))
  have hwritten := Database.image?_written h hx hle himage hwrite
  have hback := (hwritten id).trans (if_pos rfl)
  refine ⟨?_, hback, fun id' hne => ⟨(hwritten id').trans (if_neg hne),
    Database.stored?_written h hx hle himage hwrite hne⟩⟩
  have hdecode : Page.decode id x.layout frame.page.encode =
      .ok { frame.page with dirty := false, before := frame.page.encode } := by
    rw [← hadmits.id_eq, ← hadmits.layout_eq]
    exact hadmits.valid.decode_encode
  have hx' : (db.written id.table id.number disk).extent? id.table =
      some { x with count := max x.count (id.number + 1) } := by
    rw [Database.extent?_written h.registered, if_pos rfl, hx, Option.map_some]
  exact Database.stored?_of_decode hx' hback hdecode

theorem withPool (h : Settled db) {pool : Pool} (hpages : pool.Draws db.pool) :
    Settled { db with pool } := by
  intro id frame hframe hclean
  obtain ⟨old, hold, hpage⟩ := hpages id frame hframe
  rw [← hpage] at hclean ⊢
  exact h id old hold hclean

/-- **No quiet step** changes what a page says. -/
theorem quiet (hs : Settled db) (h : Sound db) (hq : Quiet db db') :
    Settled db' ∧ db'.content? = db.content? := by
  cases hq with
  | count table =>
    have hstored := Database.stored?_of_same (Database.extent?_counted h.registered table)
      (rfl : (db.counted table).disk = db.disk)
    refine ⟨fun id frame hframe hclean => ?_, funext fun id => ?_⟩
    · rw [hstored]
      exact hs id frame hframe hclean
    · exact Database.content?_congr rfl (by rw [hstored])
  | touch id =>
    have hpeek := h.inOrder.peek?_touch id
    refine ⟨hs.withPool fun id' frame hframe => ⟨frame, (hpeek id').symm.trans hframe, rfl⟩,
      funext fun id' => ?_⟩
    have hpeek' : (db.withCache (db.pool.cache.touch id)).pool.cache.peek? id' =
        db.pool.cache.peek? id' := hpeek id'
    rw [Database.content?, hpeek']
    rfl
  | @writeBack id frame x disk hframe hdirty hx hwrite =>
    obtain ⟨hback, -, hrest⟩ := stored?_cleaned h hframe hx hwrite
    have hpeek := h.inOrder.peek?_modify id Frame.cleaned
    have hstored : ∀ id', ((db.written id.table id.number disk).withCache
        (db.pool.cache.modify id Frame.cleaned)).stored? id' =
          (db.written id.table id.number disk).stored? id' := fun _ => rfl
    refine ⟨fun id' frame' hframe' hclean => ?_, funext fun id' => ?_⟩
    · rw [hstored]
      rcases h.inOrder.modify_cases hframe' with ⟨rfl, old, hold, rfl⟩ | ⟨hne, hframe'⟩
      · obtain rfl : frame = old := Option.some.inj (hframe.symm.trans hold)
        rw [hback]
        rfl
      · rw [(hrest id' hne).2]
        exact hs id' frame' hframe' hclean
    · have hpeek' : ((db.written id.table id.number disk).withCache
          (db.pool.cache.modify id Frame.cleaned)).pool.cache.peek? id' =
            if id' = id then (db.pool.cache.peek? id').map Frame.cleaned
            else db.pool.cache.peek? id' := hpeek id'
      rw [Database.content?, hpeek', hstored]
      by_cases hsame : id' = id
      · subst hsame
        rw [if_pos rfl, hframe, Database.content?_of_cached hframe]
        rfl
      · rw [if_neg hsame, (hrest id' hsame).2]
        rfl
  | @evict id frame hframe hclean hpins =>
    have hpeek := h.inOrder.peek?_erase id
    refine ⟨hs.withPool fun id' frame' hframe' => ?_, funext fun id' => ?_⟩
    · exact ⟨frame', (h.inOrder.erase_cases hframe').2, rfl⟩
    · have hpeek' : (db.withCache (db.pool.cache.erase id).2).pool.cache.peek? id' =
          if id' = id then none else db.pool.cache.peek? id' := hpeek id'
      rw [Database.content?, hpeek']
      by_cases hsame : id' = id
      · subst hsame
        rw [if_pos rfl, Database.content?_of_cached hframe]
        exact hs id' frame hframe hclean
      · rw [if_neg hsame]
        rfl
  | @load id x image page habsent hroom hx hread hdecode =>
    have hpeek := h.inOrder.peek?_insert habsent hroom (⟨page, db.pool.nextSerial, 0⟩ : Frame)
    have hstored : db.stored? id = some page :=
      Database.stored?_of_decode hx (Database.image?_of_read hx hread) hdecode
    refine ⟨fun id' frame' hframe' hclean => ?_, funext fun id' => ?_⟩
    · rcases h.inOrder.insert_cases habsent hroom hframe' with ⟨rfl, rfl⟩ | ⟨-, hframe'⟩
      · exact congrArg (Option.map Page.content) hstored
      · exact hs id' frame' hframe' hclean
    · have hpeek' : (db.loaded id page).pool.cache.peek? id' =
          if id' = id then some ⟨page, db.pool.nextSerial, 0⟩ else db.pool.cache.peek? id' :=
        hpeek id'
      rw [Database.content?, hpeek']
      by_cases hsame : id' = id
      · subst hsame
        rw [if_pos rfl, Database.content?_of_absent habsent, hstored]
        rfl
      · rw [if_neg hsame]
        rfl

/-- **Any number of quiet steps** change nothing of what the pages say. -/
theorem quiets (hs : Settled db) (h : Sound db) (hq : Quiets db db') :
    Settled db' ∧ db'.content? = db.content? := by
  induction hq with
  | refl => exact ⟨hs, rfl⟩
  | tail hq hstep ih =>
    obtain ⟨hs', hcontent⟩ := ih.1.quiet (h.quiets hq) hstep
    exact ⟨hs', hcontent.trans ih.2⟩

theorem append (hs : Settled db) (h : Sound db) {table : TableId} {x : Extent} {disk : Disk}
    (hx : db.extent? table = some x)
    (hwrite : x.write db.disk x.count (Page.zeroImage x.layout.pageSize) = .ok disk) :
    Settled (db.written table x.count disk) := by
  intro id frame hframe hclean
  rw [Database.stored?_written h hx (Nat.le_refl _) List.length_replicate hwrite
    (Database.ne_of_append h hx hwrite hframe)]
  exact hs id frame hframe hclean

theorem shrink (hs : Settled db) (h : Sound db) {table : TableId} {x : Extent} {number : Nat}
    {disk : Disk} (hx : db.extent? table = some x) (hcount : x.count = number + 1)
    (habsent : db.pool.cache.peek? ⟨table, number⟩ = none)
    (hcut : x.cut db.disk number = .ok disk) : Settled (db.shrunk table number disk) := by
  intro id frame hframe hclean
  rw [Database.stored?_shrunk h hx hcount hcut
    (Database.lt_of_shrink h hx hcount habsent hcut hframe)]
  exact hs id frame hframe hclean

/-- **Every step** keeps a database settled: a page that changes says so by being dirty. -/
theorem step (hs : Settled db) (h : Sound db) (hstep : Step db db') : Settled db' := by
  cases hstep with
  | quiet hq => exact (hs.quiet h hq).1
  | append hx hwrite => exact hs.append h hx hwrite
  | shrink hx hcount habsent hcut => exact hs.shrink h hx hcount habsent hcut
  | @change id frame change hframe hv hid hlayout hbefore hdirty hserial hpins =>
    intro id' frame' hframe' hclean
    rcases h.inOrder.modify_cases hframe' with ⟨rfl, old, hold, rfl⟩ | ⟨-, hframe'⟩
    · obtain rfl : frame = old := Option.some.inj (hframe.symm.trans hold)
      exact absurd (hdirty.symm.trans hclean) (by simp)
    · exact hs id' frame' hframe' hclean

theorem steps (hs : Settled db) (h : Sound db) (hsteps : Steps db db') : Settled db' :=
  Sound.steps_induction Settled (fun _ _ h hstep hs => hs.step h hstep) h hs hsteps

end Settled

namespace Captured

variable {db db' : Database}

theorem of_empty (hempty : ∀ id, db.pool.cache.peek? id = none) : Captured db :=
  fun id _ hframe => absurd ((hempty id).symm.trans hframe) (by simp)

theorem withPool (hc : Captured db) {pool : Pool} (hpages : pool.Draws db.pool) :
    Captured { db with pool } := by
  intro id frame hframe
  obtain ⟨old, hold, hpage⟩ := hpages id frame hframe
  rw [← hpage]
  exact hc id old hold

/-- **Every step** keeps the images: whatever is written to the place of a cached page is captured
by it. -/
theorem step (hc : Captured db) (h : Sound db) (hstep : Step db db') : Captured db' := by
  cases hstep with
  | quiet hq =>
    cases hq with
    | count table =>
      intro id frame hframe
      rw [Database.image?_of_same (Database.extent?_counted h.registered table)
        (rfl : (db.counted table).disk = db.disk)]
      exact hc id frame hframe
    | touch id =>
      exact hc.withPool fun id' frame hframe =>
        ⟨frame, (h.inOrder.peek?_touch id id').symm.trans hframe, rfl⟩
    | @writeBack id frame x disk hframe hdirty hx hwrite =>
      obtain ⟨-, hback, hrest⟩ := Settled.stored?_cleaned h hframe hx hwrite
      intro id' frame' hframe'
      rcases h.inOrder.modify_cases hframe' with ⟨rfl, old, hold, rfl⟩ | ⟨hne, hframe'⟩
      · obtain rfl : frame = old := Option.some.inj (hframe.symm.trans hold)
        exact hback
      · exact (hrest id' hne).1.trans (hc id' frame' hframe')
    | @evict id frame hframe hclean hpins =>
      exact hc.withPool fun id' frame' hframe' =>
        ⟨frame', (h.inOrder.erase_cases hframe').2, rfl⟩
    | @load id x image page habsent hroom hx hread hdecode =>
      intro id' frame' hframe'
      rcases h.inOrder.insert_cases habsent hroom hframe' with ⟨rfl, rfl⟩ | ⟨-, hframe'⟩
      · obtain ⟨-, slots, -, rfl⟩ := Page.decode_cases hdecode
        exact Database.image?_of_read hx hread
      · exact hc id' frame' hframe'
  | append hx hwrite =>
    intro id frame hframe
    rw [Database.image?_written h hx (Nat.le_refl _) List.length_replicate hwrite,
      if_neg (Database.ne_of_append h hx hwrite hframe)]
    exact hc id frame hframe
  | shrink hx hcount habsent hcut =>
    intro id frame hframe
    rw [Database.image?_shrunk h hx hcount hcut
      (Database.lt_of_shrink h hx hcount habsent hcut hframe)]
    exact hc id frame hframe
  | @change id frame change hframe hv hid hlayout hbefore hdirty hserial hpins =>
    intro id' frame' hframe'
    rcases h.inOrder.modify_cases hframe' with ⟨rfl, old, hold, rfl⟩ | ⟨-, hframe'⟩
    · obtain rfl : frame = old := Option.some.inj (hframe.symm.trans hold)
      exact (hc id' frame hframe).trans (congrArg some hbefore.symm)
    · exact hc id' frame' hframe'

theorem steps (hc : Captured db) (h : Sound db) (hsteps : Steps db db') : Captured db' :=
  Sound.steps_induction Captured (fun _ _ h hstep hc => hc.step h hstep) h hc hsteps

end Captured

/-! ## 4. What appending and cutting change -/

namespace Database

variable {db : Database} {table : TableId} {x : Extent} {disk : Disk}

/-- The table has a page more, and its file is one that ends. -/
theorem extent?_append (h : Sound db) (hx : db.extent? table = some x)
    (hwrite : x.write db.disk x.count (Page.zeroImage x.layout.pageSize) = .ok disk) :
    (db.written table x.count disk).extent? table = some { x with count := x.count + 1 } ∧
      ¬ (db.written table x.count disk).disk.Endless x.path := by
  have hzero : (Page.zeroImage x.layout.pageSize).length = x.layout.pageSize :=
    List.length_replicate
  have hsame := ((h.carried hx).write (Nat.le_refl _) hzero hwrite).2.2.2.2 x.path
  refine ⟨?_, fun hyes => (h.carried hx).not_endless hzero hwrite (hsame.mp hyes)⟩
  rw [extent?_written h.registered, if_pos rfl, hx, Option.map_some,
    Nat.max_eq_right (Nat.le_succ _)]

theorem content?_append (h : Sound db) (hx : db.extent? table = some x)
    (hwrite : x.write db.disk x.count (Page.zeroImage x.layout.pageSize) = .ok disk) {id : PageId}
    (hid : id ≠ ⟨table, x.count⟩) : (db.written table x.count disk).content? id = db.content? id :=
  content?_congr rfl (stored?_written h hx (Nat.le_refl _) List.length_replicate hwrite hid)

theorem content?_shrink (h : Sound db) (hx : db.extent? table = some x) {number : Nat}
    (hcount : x.count = number + 1) (hcut : x.cut db.disk number = .ok disk) {id : PageId}
    (hid : id.table = table → id.number < number) :
    (db.shrunk table number disk).content? id = db.content? id :=
  content?_congr rfl (stored?_shrunk h hx hcount hcut hid)

end Database
end RowStore
