/-
# A scan replays its table

A scan holds the rows of one page and goes through the others by number.  What it has left is
therefore the rest of its page and all the pages behind it (`Scan.left`).  Fetching the next page
moves its rows from the second part to the first and changes nothing of the whole; that is the
induction by which `Scan.advance` finds the next row, however many empty pages lie in between.
-/
import RowStore.Proofs.Database.Pool
import RowStore.Proofs.Stream.Replays

namespace RowStore

/-! ## 1. The rows of a table, page by page -/

namespace Reference.Table

/-- The rows of a page of the table, each with its place. -/
def pageRows (t : Table) (id : TableId) (page : Nat) : List Row :=
  (List.range t.slots).filterMap fun slot =>
    (t.row? page slot).map (·.movedTo (some ⟨⟨id, page⟩, slot⟩))

theorem rows_eq_flatMap (t : Table) (id : TableId) :
    t.rows id = (List.range t.pages.length).flatMap (t.pageRows id) := by
  rw [rows, places, List.filterMap_flatMap]
  refine congrArg (List.flatMap · _) (funext fun page => ?_)
  rw [List.filterMap_map]
  rfl

end Reference.Table

namespace Mirrors

variable {db : Database} {shelves : Shelves} {id : PageId} {s : Shelf}

/-- The rows of a cached page are those of the table's page. -/
theorem rows_frame (h : Mirrors db shelves) (hs : shelves id.table = some s) {frame : Frame}
    (hframe : db.pool.cache.peek? id = some frame) :
    frame.page.rows = s.table.pageRows id.table id.number := by
  obtain ⟨s', sheet, hs', hsheet⟩ := h.exists_sheet hframe
  obtain rfl : s = s' := Option.some.inj (hs.symm.trans hs')
  obtain ⟨hv, hid, hlayout, hpage⟩ := (h.pages hs hsheet).cached frame hframe
  rw [hv.rows_eq, hid, hlayout, hpage]
  simp only [Reference.Table.pageRows, Reference.Table.row?, Shelf.table, hsheet, Option.bind_some]

end Mirrors

/-! ## 2. What a scan has left -/

namespace Scan

/-- The rows that are left of the page, and the pages behind it. -/
def left (s : Shelf) (id : TableId) (cursor : Cursor) : List Row :=
  cursor.rows ++
    ((List.range s.sheets.length).drop cursor.nextPage).flatMap (s.table.pageRows id)

theorem left_behind {s : Shelf} {id : TableId} {cursor : Cursor}
    (h : s.sheets.length ≤ cursor.nextPage) : left s id cursor = cursor.rows := by
  rw [left, List.drop_eq_nil_of_le (by rwa [List.length_range]), List.flatMap_nil, List.append_nil]

/-- The next page is the first of the pages that are left. -/
theorem left_page {s : Shelf} {id : TableId} {number : Nat} (h : number < s.sheets.length) :
    left s id ⟨number, []⟩ = left s id ⟨number + 1, s.table.pageRows id number⟩ := by
  have hlt : number < (List.range s.sheets.length).length := by rwa [List.length_range]
  rw [left, left, List.nil_append, List.drop_eq_getElem_cons hlt, List.flatMap_cons,
    List.getElem_range]

/-- The state of a scan that has `rest` left. -/
def At (s : Shelf) (id : TableId) (state : State) (rest : List Row) : Prop :=
  ∃ cursor, state = some cursor ∧ cursor.nextPage ≤ s.sheets.length ∧ rest = left s id cursor

variable {shelves : Shelves} {id : TableId} {s : Shelf}

/-- **The next row is found**, or the end.  By induction on the fuel: each page that is fetched
costs one, and there are no more pages than it lasts for. -/
theorem advance_run (hs : shelves id = some s) {fuel : Nat} {cursor : Cursor} {db : Database}
    (h : Mirrors db shelves) (hidle : Idle db) (hpage : cursor.nextPage ≤ s.sheets.length)
    (hfuel : s.sheets.length < cursor.nextPage + fuel) :
    ∃ cursor' db', (advance s.ref fuel cursor).run (some cursor, db) =
        .ok (left s id cursor).head? (some cursor', db') ∧ Mirrors db' shelves ∧ Idle db' ∧
      cursor'.nextPage ≤ s.sheets.length ∧ left s id cursor' = (left s id cursor).tail := by
  induction fuel generalizing cursor db with
  | zero => omega
  | succ fuel ih =>
    obtain ⟨number, rows⟩ := cursor
    cases rows with
    | cons row rest =>
      refine ⟨⟨number, rest⟩, db, ?_, h, hidle, hpage, rfl⟩
      simp only [advance, EStateM.run_bind, StreamM.run_setState, EStateM.run_pure]
      rfl
    | nil =>
      obtain ⟨f, hfile, -, hd⟩ := h.file hs
      have hrun := StreamM.run_onDatabase_ok hfile (some (⟨number, []⟩ : Cursor))
      by_cases hend : s.sheets.length ≤ number
      · refine ⟨⟨number, []⟩, db, ?_, h, hidle, hpage, ?_⟩
        · simp only [advance, EStateM.run_bind, hrun, hd.count, hend, if_true, EStateM.run_pure]
          rw [left_behind hend]
          rfl
        · rw [left_behind hend]
          rfl
      · have hlt : number < s.sheets.length := Nat.lt_of_not_le hend
        obtain ⟨frame, db', hfetch, h', hidle', hframe⟩ :=
          @Mirrors.fetch db shelves ⟨id, number⟩ s _ h hidle hs (List.getElem?_eq_getElem hlt)
        have hrows : frame.page.rows = s.table.pageRows id number := h'.rows_frame hs hframe
        have hrun' := StreamM.run_onDatabase_ok hfetch (some (⟨number, []⟩ : Cursor))
        have hfuel' : s.sheets.length < number + 1 + fuel := by
          change s.sheets.length < number + (fuel + 1) at hfuel
          omega
        obtain ⟨cursor', db'', hadvance, hrest⟩ :=
          @ih ⟨number + 1, frame.page.rows⟩ db' h' hidle' hlt hfuel'
        rw [hrows] at hadvance hrest
        refine ⟨cursor', db'', ?_, by rw [left_page hlt]; exact hrest⟩
        simp only [advance, EStateM.run_bind, hrun, hd.count, hend, if_false, hd.id, hrun',
          StreamM.run_setState, hrows, hadvance, left_page hlt]

/-! ## 3. The scan as a stream -/

theorem le_foldl_max (entries : List (PageId × Frame)) (n : Nat) :
    n ≤ entries.foldl (fun n e => max n (e.1.number + 1)) n := by
  induction entries generalizing n with
  | nil => exact Nat.le_refl _
  | cons e entries ih => exact Nat.le_trans (Nat.le_max_left _ _) (ih _)

/-- The bound covers every page of the table. -/
theorem length_le_pageBound {db : Database} (h : Mirrors db shelves) (hs : shelves id = some s) :
    s.sheets.length ≤ pageBound db s.ref := by
  obtain ⟨f, hf, hd⟩ := h.files hs
  rw [pageBound, hf, ← hd.count]
  exact le_foldl_max _ _

theorem length_pageRows_le (s : Shelf) (id : TableId) (number : Nat) :
    (s.table.pageRows id number).length ≤ 65536 := by
  refine Nat.le_trans (List.length_filterMap_le _ _) ?_
  rw [List.length_range]
  exact s.layout.slots_le

theorem length_left_le (s : Shelf) (id : TableId) (cursor : Cursor) :
    (left s id cursor).length ≤ cursor.rows.length + s.sheets.length * 65536 := by
  have hpages : ∀ numbers : List Nat,
      (numbers.flatMap (s.table.pageRows id)).length ≤ numbers.length * 65536 := by
    intro numbers
    induction numbers with
    | nil => simp
    | cons number numbers ih =>
      have := length_pageRows_le s id number
      rw [List.flatMap_cons, List.length_append, List.length_cons]
      omega
  have hdrop := hpages ((List.range s.sheets.length).drop cursor.nextPage)
  rw [List.length_drop, List.length_range] at hdrop
  rw [left, List.length_append]
  omega

/-- **A scan replays the rows of its table**, by page and slot, while nobody holds a page and the
table is not changed. -/
theorem replays (hs : shelves id = some s)
    (hschema : ∀ row ∈ s.table.rows id, row.schema = s.layout.schema) :
    (stream s.ref s.layout.schema).Replays (fun db => Mirrors db shelves ∧ Idle db)
      (s.table.rows id) (At s id) where
  schema := hschema
  start state db hok :=
    ⟨some ⟨0, []⟩, db, rfl, hok, _, rfl, Nat.zero_le _, Reference.Table.rows_eq_flatMap _ _⟩
  rewind := by
    rintro state db rest hok ⟨cursor, rfl, -, -⟩
    exact ⟨some ⟨0, []⟩, db, rfl, hok, _, rfl, Nat.zero_le _,
      Reference.Table.rows_eq_flatMap _ _⟩
  next := by
    rintro state db rest ⟨h, hidle⟩ ⟨cursor, rfl, hpage, rfl⟩
    have hbound := length_le_pageBound h hs
    have hfuel : s.sheets.length < cursor.nextPage + (pageBound db s.ref + 1) := by omega
    obtain ⟨cursor', db', hrun, h', hidle', hpage', hleft⟩ := advance_run hs h hidle hpage hfuel
    refine ⟨some cursor', db', ?_, ⟨h', hidle'⟩, cursor', rfl, hpage', hleft.symm⟩
    change (next s.ref).run (some cursor, db) = _
    simp only [next, EStateM.run_bind, StreamM.run_getState, StreamM.run_getDatabase, hrun]
  bound := by
    rintro state db rest ⟨h, -⟩ ⟨cursor, rfl, -, rfl⟩
    have hbound := length_le_pageBound h hs
    have hleft := length_left_le s id cursor
    have hall := length_left_le s id ⟨0, []⟩
    have hrows : s.table.rows id = left s id ⟨0, []⟩ := Reference.Table.rows_eq_flatMap _ _
    have hmul := Nat.mul_le_mul_right 65536 hbound
    change _ ≤ cursor.rows.length + pageBound db s.ref * 65536 ∧
      _ ≤ cursor.rows.length + pageBound db s.ref * 65536
    rw [hrows]
    simp only [List.length_nil] at hall
    omega

end Scan
end RowStore
