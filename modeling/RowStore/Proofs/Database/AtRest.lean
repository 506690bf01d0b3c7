/-
# Databases at rest

A page says what its frame says if it is cached, clean or dirty, and what its bytes say otherwise.
On a settled database with ordinary files, the sheets that pages say in this way are what disk and
cache mean (`AtRest.mirrors`), and the rows on them are the rows of the tables (`AtRest.rows_said`).

A database is at rest if moreover nobody holds a page.  It need not be clean, and what is cached
is left open.  Sessions lead to such databases (`Session.atRest_after`).
-/
import RowStore.Proofs.Database.Durability

namespace RowStore

/-! ## 1. The sheets that pages say -/

/-- The rows of the slots, without their places. -/
def Content.sheet (content : Content) : Sheet :=
  content.slots.toList.map (Option.map (·.movedTo none))

namespace Database

/-- The sheet that the page says. -/
def sheetSaid (db : Database) (id : PageId) : Sheet := ((db.content? id).map Content.sheet).getD []

theorem sheetSaid_of_content {db : Database} {id : PageId} {page : Page}
    (h : db.content? id = some page.content) : db.sheetSaid id = page.sheet := by
  rw [sheetSaid, h]
  rfl

/-- The shelves of the tables, by what the pages say. -/
def said (db : Database) : Shelves := fun id => (db.shelves id).map fun s =>
  { s with sheets := (List.range s.sheets.length).map fun number => db.sheetSaid ⟨id, number⟩ }

theorem said_eq_some {db : Database} {id : TableId} {s : Shelf} (h : db.said id = some s) :
    ∃ f, db.table? id = some f ∧ f.path = s.path ∧ f.layout = s.layout ∧
      s.sheets = (List.range f.pageCount).map fun number => db.sheetSaid ⟨id, number⟩ := by
  obtain ⟨s', hs', rfl⟩ := Option.map_eq_some_iff.mp h
  obtain ⟨f, hf, -, hpath, hlayout, hsheets⟩ := shelves_eq_some hs'
  exact ⟨f, hf, hpath, hlayout, by rw [hsheets, List.length_map, List.length_range]⟩

end Database

/-- The catalog and the files say no more of sheets than how many there are. -/
theorem Stands.said {db : Database} (h : Stands db db.shelves) : Stands db db.said where
  entries id := by
    rw [Database.said, Option.map_map]
    exact h.entries id
  files := by
    intro id s hs
    obtain ⟨s', hs', rfl⟩ := Option.map_eq_some_iff.mp hs
    obtain ⟨f, hf, hd⟩ := h.files hs'
    exact ⟨f, hf, hd.id, hd.path, hd.layout, by rw [List.length_map, List.length_range, hd.count]⟩
  ordinary := by
    intro id s hs
    obtain ⟨s', hs', rfl⟩ := Option.map_eq_some_iff.mp hs
    rw [List.length_map, List.length_range]
    exact h.ordinary hs'
  paths := by
    intro a b sa sb ha hb hpath
    obtain ⟨sa', ha', rfl⟩ := Option.map_eq_some_iff.mp ha
    obtain ⟨sb', hb', rfl⟩ := Option.map_eq_some_iff.mp hb
    exact h.paths ha' hb' hpath

/-! ## 2. At rest -/

/-- The tables have ordinary files and the cache agrees with them; nobody holds a page. -/
structure Database.AtRest (db : Database) : Prop where
  sound : Sound db
  settled : Settled db
  ordinary : db.Ordinary
  idle : Idle db

namespace Database.AtRest

variable {db : Database}

/-- The catalog and the files, whatever is cached. -/
theorem stands (h : db.AtRest) : Stands db db.said := by
  have hempty : ∀ id, (Lru.empty 1 : Lru PageId Frame).peek? id = none := Lru.peek?_empty 1
  have hdisk := @mirrors_shelves { db with pool := ⟨Lru.empty 1, [], 0⟩ } h.sound.opened
    ⟨h.ordinary.own, h.ordinary.regular, h.ordinary.readable⟩ hempty (Lru.inOrder_empty Nat.one_pos)
  exact (hdisk.toStands.withPool db.pool).said

/-- Every page of a table says something: what its frame says, or what its bytes say. -/
theorem exists_page (h : db.AtRest) {id : PageId} {x : Extent} (hx : db.extent? id.table = some x)
    (hlt : id.number < x.count) :
    ∃ page : Page, page.Valid ∧ page.id = id ∧ page.layout = x.layout ∧
      db.content? id = some page.content := by
  cases hframe : db.pool.cache.peek? id with
  | some frame =>
    obtain ⟨y, hy, hadmits⟩ := h.sound.cached hframe
    obtain rfl := Option.some.inj (hx.symm.trans hy)
    exact ⟨frame.page, hadmits.valid, hadmits.id_eq, hadmits.layout_eq, content?_of_cached hframe⟩
  | none =>
    obtain ⟨page, hpage⟩ := Option.isSome_iff_exists.mp (h.ordinary.isSome_stored? hx hlt)
    obtain ⟨y, image, hy, -, hdecode⟩ := exists_of_stored? hpage
    obtain rfl := Option.some.inj (hx.symm.trans hy)
    refine ⟨page, .of_decode hdecode, ?_, ?_, by rw [content?_of_absent hframe, hpage]; rfl⟩
    all_goals
      obtain ⟨-, slots, -, rfl⟩ := Page.decode_cases hdecode
      rfl

/-- **Disk and cache mean what the pages say.** -/
theorem mirrors (h : db.AtRest) : Mirrors db db.said where
  toStands := h.stands
  inOrder := h.sound.inOrder
  pages := by
    intro id s sheet hs hsheet
    obtain ⟨f, htable, hpath, hlayout, hsheets⟩ := said_eq_some hs
    have hx := extent?_of_table htable
    rw [hsheets, List.getElem?_map, Option.map_eq_some_iff] at hsheet
    obtain ⟨number, hnumber, rfl⟩ := hsheet
    obtain ⟨hlt, rfl⟩ := List.getElem?_eq_some_iff.mp hnumber
    rw [List.length_range] at hlt
    rw [List.getElem_range]
    obtain ⟨page, hpage⟩ := Option.isSome_iff_exists.mp (h.ordinary.isSome_stored? hx hlt)
    obtain ⟨y, image, hy, hread, hdecode⟩ := exists_of_stored? hpage
    obtain rfl := Option.some.inj (hx.symm.trans hy)
    refine ⟨⟨image, page, ?_, hlayout ▸ hdecode, ?_⟩, ?_⟩
    · rw [Shelf.read, ← hpath, ← hlayout]
      exact hread
    · -- a clean page says what stands on the disk, cached or not
      intro hclean
      refine (sheetSaid_of_content ?_).symm
      cases hframe : db.pool.cache.peek? id with
      | none => rw [content?_of_absent hframe, hpage]; rfl
      | some frame =>
        rw [content?_of_cached hframe, ← h.settled id frame hframe (hclean frame hframe), hpage]
        rfl
    · intro frame hframe
      obtain ⟨y, hy, hadmits⟩ := h.sound.cached hframe
      obtain rfl := Option.some.inj (hx.symm.trans hy)
      exact ⟨hadmits.valid, hadmits.id_eq, hadmits.layout_eq.trans hlayout,
        (sheetSaid_of_content (content?_of_cached hframe)).symm⟩
  within := by
    intro id frame hframe
    obtain ⟨x, hx, hadmits⟩ := h.sound.cached hframe
    have hregular := h.ordinary.regular_extent hx
    obtain ⟨f, hf, rfl⟩ := exists_table hx
    obtain ⟨s, hs, hcount⟩ := exists_shelf hf
    refine ⟨_, by rw [said, hs, Option.map_some], ?_⟩
    rw [List.length_map, List.length_range, hcount]
    exact hadmits.lt_count hregular.not_endless

/-- **The rows on a shelf** are the rows of the table. -/
theorem rows_said (h : db.AtRest) {id : TableId} {s : Shelf} (hs : db.said id = some s) :
    s.table.rows id = db.tableRows id := by
  obtain ⟨f, htable, -, hlayout, hsheets⟩ := said_eq_some hs
  have hx := extent?_of_table htable
  have hcount : db.pageCount? id = some f.pageCount := by rw [pageCount?, htable, Option.map_some]
  have hlength : s.table.pages.length = f.pageCount := by
    rw [Shelf.table, hsheets, List.length_map, List.length_range]
  rw [Reference.Table.rows_eq_flatMap, tableRows, hcount, hlength, Option.getD_some]
  apply List.flatMap_congr
  intro number hnumber
  obtain ⟨page, hv, hid, hpage, hcontent⟩ :=
    @exists_page db h ⟨id, number⟩ _ hx (List.mem_range.mp hnumber)
  have hrows : db.pageRows ⟨id, number⟩ = page.rows := by
    rw [pageRows, hcontent]
    rfl
  have hget : s.sheets[number]? = some page.sheet := by
    rw [hsheets, List.getElem?_map, List.getElem?_range (List.mem_range.mp hnumber),
      Option.map_some, sheetSaid_of_content hcontent]
  have hslots : page.layout.slots = s.layout.slots := by rw [hpage, ← hlayout]
  rw [hrows, hv.rows_eq, hid, hslots]
  simp only [Reference.Table.pageRows, Reference.Table.row?, Shelf.table, hget, Option.bind_some]

/-- A table of the catalog has a shelf. -/
theorem exists_said (h : db.AtRest) {id : TableId} {ref : TableRef} (href : db.ref? id = some ref) :
    ∃ s, db.said id = some s ∧ s.ref = ref := by
  have hentry := h.stands.entries id
  change db.ref? id = _ at hentry
  rw [href, eq_comm, Option.map_eq_some_iff] at hentry
  exact hentry

end Database.AtRest

/-- **Sessions lead to databases at rest**: tables are opened on ordinary files, and any acts that
mark what they change and leave room on the devices come to an end with no page held. -/
theorem Session.atRest_after {disk : Disk} {pageSize capacity : Nat} {db₀ : Database}
    (h₀ : Database.onDisk disk pageSize capacity = .ok db₀) {openings : List Opening}
    (hord : (db₀.openAll openings).Ordinary) {acts : List Act}
    (hmarked : ∀ act ∈ acts, act.Marked) (hroom : ∀ act ∈ acts, act.KeepsRoom)
    (hidle : Idle ((start (db₀.openAll openings)).after acts).db) :
    ((start (db₀.openAll openings)).after acts).db.AtRest := by
  obtain ⟨h, hempty⟩ := Database.sound_openAll h₀ hord.separate
  have hstart : Sound (start (db₀.openAll openings)).db := h
  exact ⟨sound_after hstart acts, settled_after hstart (.of_empty hempty) hmarked,
    ordinary_after hstart hord hroom, hidle⟩

/-- Whether nobody holds a page shows in the list of cached pages. -/
theorem Sound.idle_of_toList {db : Database} (h : Sound db)
    (hall : db.pool.cache.toList.all (·.2.pins == 0) = true) : Idle db := by
  intro id frame hframe
  have hmem := h.inOrder.mem_toList.mpr hframe
  exact beq_iff_eq.mp (List.all_eq_true.mp hall _ hmem)

/-- The small table, with nothing cached. -/
theorem Sample.atRest {capacity : Nat} (h : 0 < capacity) : (opened capacity).AtRest := by
  have h₀ : Database.onDisk disk 8 capacity = .ok (database capacity) := Database.onDisk_eq disk 8 h
  have hidle : Idle (opened capacity) := fun id frame hframe =>
    absurd ((Lru.peek?_empty capacity id).symm.trans hframe) (by simp)
  have hnone : ∀ act ∈ ([] : List Act), act.Marked ∧ act.KeepsRoom := by simp
  rw [← openAll_eq] at hidle ⊢
  exact Session.atRest_after h₀ (ordinary capacity) (fun act hact => (hnone act hact).1)
    (fun act hact => (hnone act hact).2) hidle

end RowStore
