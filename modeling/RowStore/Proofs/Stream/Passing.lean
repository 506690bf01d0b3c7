/-
# A scan passes pages

Asked for a row, a scan goes from where it stands to the next page that has one, however many empty
pages lie in between, and an error may stop it on its way.  `Scan.Advanced` has a constructor for
each way in which this can end.  Whichever it is, the scan has passed the pages from one number up
to another, and has lost none of their rows: they were handed out or are at hand (`Scan.Passed`).

The rows of a page stand there in the order of their slots.  So what a scan comes by is in the order
of the places, page by page (`Sound.ascending_pageRows`).
-/
import RowStore.Proofs.Stream.Reading

namespace RowStore

/-! ## 1. The order of places -/

/-- The row stands in front of the other one in their table: on a page before, or in a slot before
on the same page. -/
def Row.Precedes (a b : Row) : Prop :=
  ∃ p q, a.place = some p ∧ b.place = some q ∧ p.page.table = q.page.table ∧
    (p.page.number < q.page.number ∨ p.page.number = q.page.number ∧ p.slot < q.slot)

theorem Row.Precedes.ne {a b : Row} (h : a.Precedes b) : a ≠ b := by
  rintro rfl
  obtain ⟨p, q, hp, hq, -, hlt⟩ := h
  obtain rfl : p = q := Option.some.inj (hp.symm.trans hq)
  rcases hlt with hlt | ⟨-, hlt⟩ <;> exact Nat.lt_irrefl _ hlt

/-- No row comes twice if each stands in front of those behind it. -/
theorem nodup_of_precedes {rows : List Row} (h : rows.Pairwise Row.Precedes) : rows.Nodup :=
  h.imp Row.Precedes.ne

namespace Page.Valid

variable {page : Page}

theorem placed (h : page.Valid) {row : Row} (hrow : row ∈ page.rows) :
    ∃ slot, row.place = some ⟨page.id, slot⟩ := by
  rw [h.rows_eq, List.mem_filterMap] at hrow
  obtain ⟨slot, -, hslot⟩ := hrow
  obtain ⟨row', -, rfl⟩ := Option.map_eq_some_iff.mp hslot
  exact ⟨slot, rfl⟩

theorem ascending (h : page.Valid) : page.rows.Pairwise Row.Precedes := by
  rw [h.rows_eq, List.pairwise_filterMap]
  refine List.pairwise_lt_range.imp ?_
  intro a b hlt row hrow row' hrow'
  obtain ⟨bare, -, rfl⟩ := Option.map_eq_some_iff.mp hrow
  obtain ⟨bare', -, rfl⟩ := Option.map_eq_some_iff.mp hrow'
  exact ⟨⟨page.id, a⟩, ⟨page.id, b⟩, rfl, rfl, rfl, Or.inr ⟨rfl, hlt⟩⟩

end Page.Valid

namespace Sound

variable {db : Database}

/-- The rows of a page of the database are those of a page in order, if there are any. -/
theorem pageRows_cases (h : Sound db) (id : PageId) :
    db.pageRows id = [] ∨
      ∃ page : Page, page.Valid ∧ page.id = id ∧ db.pageRows id = page.rows := by
  cases hframe : db.pool.cache.peek? id with
  | some frame =>
    obtain ⟨x, -, hadmits⟩ := h.cached hframe
    exact .inr ⟨frame.page, hadmits.valid, hadmits.id_eq, Database.pageRows_of_cached hframe⟩
  | none =>
    rw [Database.pageRows, Database.content?_of_absent hframe, Option.map_map]
    cases hpage : db.stored? id with
    | none => exact .inl rfl
    | some page =>
      obtain ⟨x, image, -, -, hdecode⟩ := Database.exists_of_stored? hpage
      refine .inr ⟨page, .of_decode hdecode, ?_, rfl⟩
      obtain ⟨-, slots, -, rfl⟩ := Page.decode_cases hdecode
      rfl

/-- Every row of a page has its place there. -/
theorem placed_pageRows (h : Sound db) {id : PageId} {row : Row} (hrow : row ∈ db.pageRows id) :
    ∃ slot, row.place = some ⟨id, slot⟩ := by
  rcases h.pageRows_cases id with hnil | ⟨page, hv, rfl, hrows⟩
  · rw [hnil] at hrow
    cases hrow
  · rw [hrows] at hrow
    exact hv.placed hrow

/-- **The rows of a page** come in the order of their slots. -/
theorem ascending_pageRows (h : Sound db) (id : PageId) :
    (db.pageRows id).Pairwise Row.Precedes := by
  rcases h.pageRows_cases id with hnil | ⟨page, hv, -, hrows⟩
  · rw [hnil]
    exact .nil
  · rw [hrows]
    exact hv.ascending

/-- A row of a table is on the page that its place names, one of those that the table counts. -/
theorem placed_tableRows (h : Sound db) {table : TableId} {x : Extent}
    (hx : db.extent? table = some x) {row : Row} (hrow : row ∈ db.tableRows table) :
    ∃ number slot, row.place = some ⟨⟨table, number⟩, slot⟩ ∧ number < x.count ∧
      row ∈ db.pageRows ⟨table, number⟩ := by
  rw [Database.tableRows, Database.pageCount?_eq, hx, List.mem_flatMap] at hrow
  obtain ⟨number, hnumber, hrow⟩ := hrow
  obtain ⟨slot, hplace⟩ := h.placed_pageRows hrow
  exact ⟨number, slot, hplace, List.mem_range.mp hnumber, hrow⟩

end Sound

theorem Database.mem_tableRows {db : Database} {table : TableId} {x : Extent}
    (hx : db.extent? table = some x) {number : Nat} (hlt : number < x.count) {row : Row}
    (hrow : row ∈ db.pageRows ⟨table, number⟩) : row ∈ db.tableRows table := by
  rw [tableRows, pageCount?_eq, hx]
  exact List.mem_flatMap.mpr ⟨number, List.mem_range.mpr hlt, hrow⟩

/-! ## 2. What a scan comes to when it is asked for a row -/

namespace Scan

/-- The scan has gone from the one cursor to the other and handed out `taken`: these rows and those
at hand are what it had at hand and what the pages between the two say. -/
structure Passed (db : Database) (id : TableId) (count : Nat) (cursor cursor' : Cursor)
    (taken : List Row) : Prop where
  le : cursor.nextPage ≤ cursor'.nextPage
  within : cursor'.nextPage ≤ max cursor.nextPage count
  rows : remains db id cursor'.nextPage cursor = taken ++ cursor'.rows

/-- What asking a scan for a row can come to, in a table of `count` pages. -/
inductive Advanced (db : Database) (id : TableId) (count : Nat) (cursor : Cursor) :
    EStateM.Result Error (State × Database) (Option Row) → Prop
  | row {row : Row} {cursor' : Cursor} {db' : Database} (hq : Quiets db db')
      (hp : Passed db id count cursor cursor' [row]) :
      Advanced db id count cursor (.ok (some row) (some cursor', db'))
  | ended {number : Nat} {db' : Database} (hq : Quiets db db')
      (hp : Passed db id count cursor ⟨number, []⟩ []) (hend : count ≤ number) :
      Advanced db id count cursor (.ok none (some ⟨number, []⟩, db'))
  /-- A page could not be had, and is sought again the next time. -/
  | failed {e : Error} {number : Nat} {db' : Database} (hq : Quiets db db')
      (hp : Passed db id count cursor ⟨number, []⟩ []) :
      Advanced db id count cursor (.error e (some ⟨number, []⟩, db'))

section

variable {db db₁ : Database} {id : TableId} {ref : TableRef} {x : Extent} {count number : Nat}
  {cursor' : Cursor} {taken : List Row}

theorem Passed.stay (taken rest : List Row) :
    Passed db id count ⟨number, taken ++ rest⟩ ⟨number, rest⟩ taken :=
  ⟨Nat.le_refl _, Nat.le_max_left _ _, remains_behind (Nat.le_refl _)⟩

/-- A page that is fetched is the first of those that are passed. -/
theorem Passed.page (hlt : number < count) (hcontent : db₁.content? = db.content?)
    (hp : Passed db₁ id count ⟨number + 1, db.pageRows ⟨id, number⟩⟩ cursor' taken) :
    Passed db id count ⟨number, []⟩ cursor' taken where
  le := Nat.le_of_succ_le hp.le
  within := by
    have hle : cursor'.nextPage ≤ max (number + 1) count := hp.within
    change cursor'.nextPage ≤ max number count
    omega
  rows := by
    rw [remains_page hp.le, ← remains_congr hcontent]
    exact hp.rows

theorem Advanced.page {r : EStateM.Result Error (State × Database) (Option Row)}
    (hlt : number < count) (hq : Quiets db db₁) (hcontent : db₁.content? = db.content?)
    (h : Advanced db₁ id count ⟨number + 1, db.pageRows ⟨id, number⟩⟩ r) :
    Advanced db id count ⟨number, []⟩ r := by
  cases h with
  | row hq' hp => exact .row (hq.trans hq') (hp.page hlt hcontent)
  | ended hq' hp hend => exact .ended (hq.trans hq') (hp.page hlt hcontent) hend
  | failed hq' hp => exact .failed (hq.trans hq') (hp.page hlt hcontent)

/-- **Asking a scan for a row** comes to one of these.  By induction on the fuel, of which every
page that is fetched costs one. -/
theorem advance_advanced (h : Sound db) (hs : Settled db) (href : db.ref? id = some ref)
    (hx : db.extent? id = some x) {fuel : Nat} {cursor : Cursor}
    (hfuel : x.count < cursor.nextPage + fuel) (hpos : 0 < fuel) :
    Advanced db id x.count cursor ((advance ref fuel cursor).run (some cursor, db)) := by
  induction fuel generalizing cursor db with
  | zero => exact absurd hpos (Nat.lt_irrefl 0)
  | succ fuel ih =>
    obtain ⟨number, rows⟩ := cursor
    cases rows with
    | cons row rest =>
      simp only [advance, EStateM.run_bind, StreamM.run_setState, EStateM.run_pure]
      exact .row .refl (.stay [row] rest)
    | nil =>
      obtain ⟨f, hfile, hd⟩ := h.registered.file_run href hx
      have hfile' := StreamM.run_onDatabase_ok hfile (some (⟨number, []⟩ : Cursor))
      by_cases hend : x.count ≤ number
      · simp only [advance, EStateM.run_bind, hfile', hd.count, if_pos hend, EStateM.run_pure]
        exact .ended .refl (.stay [] []) hend
      · have hlt : number < x.count := Nat.lt_of_not_le hend
        have hfetch := h.fetch_run ⟨id, number⟩
        simp only [advance, EStateM.run_bind, hfile', hd.count, if_neg hend, hd.id]
        cases hr : (Database.fetch ⟨id, number⟩).run db with
        | error e db₁ =>
          rw [hr] at hfetch
          simp only [StreamM.run_onDatabase, hr]
          exact .failed (hfetch.quiets_of_error h) (.stay [] [])
        | ok frame db₁ =>
          rw [hr] at hfetch
          have hq := hfetch.quiets_of_ok h
          obtain ⟨hs₁, hcontent⟩ := hs.quiets h hq
          have href₁ := (hq.steps.ref? id).trans href
          have hx₁ := (congrFun (h.extent?_quiets hq) id).trans hx
          have hrows : frame.page.rows = db.pageRows ⟨id, number⟩ := by
            rw [← Database.pageRows_congr hcontent,
              Database.pageRows_of_cached (hfetch.cached h)]
          have hfuel₁ : x.count < number + 1 + fuel := by
            change x.count < number + (fuel + 1) at hfuel
            omega
          simp only [StreamM.run_onDatabase_ok hr, StreamM.run_setState, hrows]
          have hrest := @ih db₁ (h.quiets hq) hs₁ href₁ hx₁
            ⟨number + 1, db.pageRows ⟨id, number⟩⟩ hfuel₁ (by omega)
          exact hrest.page hlt hq hcontent

/-- **The next row** of an open scan. -/
theorem next_advanced (h : Sound db) (hs : Settled db) (href : db.ref? id = some ref)
    (hx : db.extent? id = some x) (cursor : Cursor) :
    Advanced db id x.count cursor ((next ref).run (some cursor, db)) := by
  have hbound := le_pageBound h href hx
  have hfuel : x.count < cursor.nextPage + (pageBound db ref + 1) := by omega
  simp only [next, EStateM.run_bind, StreamM.run_getState, StreamM.run_getDatabase]
  exact advance_advanced h hs href hx hfuel (Nat.succ_pos _)

end

end Scan
end RowStore
