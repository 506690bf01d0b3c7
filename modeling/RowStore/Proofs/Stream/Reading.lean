/-
# Scans only read

A scan is a run of quiet steps, whether it comes to its end or an error stops it
(`Sound.scanTable_quiets`).  That is so of all streams that touch the database by quiet operations
only, and a computation on a stream is such a one if its parts are (`StreamM.OnlyReads`).

Nor can a scan that succeeds say anything but what the pages of its table say, on a settled
database: it lists them in order, the cached pages as they are cached and the others as they are on
the disk (`Settled.scanTable_eq`).  Nothing is asked of the files or of the pages that are held;
only whether the scan succeeds depends on them.
-/
import RowStore.Proofs.Database.Operations
import RowStore.Proofs.Stream.Scan

namespace RowStore

/-! ## 1. Computations that only read -/

namespace StreamM

variable {σ α β : Type}

theorem run_onDatabase (x : DbM α) (s : σ) (db : Database) :
    (onDatabase x).run (s, db) = match x.run db with
      | .ok a db => .ok a (s, db)
      | .error e db => .error e (s, db) := rfl

theorem run_runFrom (x : StreamM σ α) (s : σ) (db : Database) :
    (runFrom x s).run db = match x.run (s, db) with
      | .ok a (_, db) => .ok a db
      | .error e (_, db) => .error e db := rfl

/-- Whatever comes of the computation, all that it does to the database is quiet. -/
def OnlyReads (x : StreamM σ α) : Prop :=
  ∀ s db, Sound db → Quiets db (endState (x.run (s, db))).2

namespace OnlyReads

theorem pure (a : α) : OnlyReads (Pure.pure a : StreamM σ α) := fun _ _ _ => .refl

theorem throw (e : Error) : OnlyReads (MonadExcept.throw e : StreamM σ α) := fun _ _ _ => .refl

theorem setState (s : σ) : OnlyReads (StreamM.setState s) := fun _ _ _ => .refl

theorem getState : OnlyReads (StreamM.getState : StreamM σ σ) := fun _ _ _ => .refl

theorem getDatabase : OnlyReads (StreamM.getDatabase : StreamM σ Database) := fun _ _ _ => .refl

theorem bind {x : StreamM σ α} {f : α → StreamM σ β} (hx : OnlyReads x)
    (hf : ∀ a, OnlyReads (f a)) : OnlyReads (x >>= f) := by
  intro s db h
  have hq := hx s db h
  rw [EStateM.run_bind]
  cases hr : x.run (s, db) with
  | error e state =>
    rw [hr] at hq
    exact hq
  | ok a state =>
    rw [hr] at hq
    exact hq.trans (hf a state.1 state.2 (h.quiets hq))

theorem onDatabase {x : DbM α} (hx : ∀ db, Sound db → Quiets db (endState (x.run db))) :
    OnlyReads (StreamM.onDatabase x : StreamM σ α) := by
  intro s db h
  have hq := hx db h
  rw [run_onDatabase]
  cases hr : x.run db with
  | error e db' =>
    rw [hr] at hq
    exact hq
  | ok a db' =>
    rw [hr] at hq
    exact hq

/-- Started from some state of the stream, the computation is a quiet operation. -/
theorem runFrom {x : StreamM σ α} (hx : OnlyReads x) (s : σ) {db : Database} (h : Sound db) :
    Quiets db (endState ((StreamM.runFrom x s).run db)) := by
  have hq := hx s db h
  rw [run_runFrom]
  cases hr : x.run (s, db) with
  | error e state =>
    rw [hr] at hq
    exact hq
  | ok a state =>
    rw [hr] at hq
    exact hq

end OnlyReads

end StreamM

namespace RowStream

variable {σ : Type}

theorem collect_run (s : RowStream σ) (state : σ) (db : Database) :
    s.collect.run (state, db) = (s.take (s.bound state db + 1)).run (state, db) := rfl

theorem drain_run (s : RowStream σ) {state state' : σ} {db : Database}
    (h : s.start.run (state, db) = .ok () (state', db)) :
    s.drain.run (state, db) = s.collect.run (state', db) := by
  simp only [drain, EStateM.run_bind, h]

end RowStream

theorem Database.file_quiets (ref : TableRef) (db : Database) :
    Quiets db (endState ((Database.file ref).run db)) := by
  simp only [Database.file, EStateM.run_bind, EStateM.run_get]
  cases db.files[ref.index]? <;> exact .refl

theorem Database.attempt_quiets {α : Type} (x : Except Error α) (db : Database) :
    Quiets db (endState ((Database.attempt x).run db)) := by
  cases x <;> exact .refl

namespace Scan

theorem advance_onlyReads (ref : TableRef) (fuel : Nat) (cursor : Cursor) :
    StreamM.OnlyReads (advance ref fuel cursor) := by
  induction fuel generalizing cursor with
  | zero => exact .pure _
  | succ fuel ih =>
    obtain ⟨number, rows⟩ := cursor
    cases rows with
    | cons row rest => exact .bind (.setState _) fun _ => .pure _
    | nil =>
      refine .bind (.onDatabase fun db _ => Database.file_quiets ref db) fun f => ?_
      by_cases hend : f.pageCount ≤ number
      · simp only [if_pos hend]
        exact .pure _
      · simp only [if_neg hend]
        refine .bind (.onDatabase fun db h => (h.fetch_run _).quiets h) fun frame => ?_
        exact .bind (.setState _) fun _ => ih _

theorem next_onlyReads (ref : TableRef) : StreamM.OnlyReads (next ref) := by
  refine .bind .getState fun state => ?_
  cases state with
  | none => exact .throw _
  | some cursor => exact .bind .getDatabase fun db => advance_onlyReads ref _ cursor

theorem take_onlyReads (ref : TableRef) (schema : Schema) (count : Nat) :
    StreamM.OnlyReads ((stream ref schema).take count) := by
  induction count with
  | zero => exact .pure _
  | succ count ih =>
    refine .bind (next_onlyReads ref) fun row => ?_
    cases row with
    | none => exact .pure _
    | some row => exact .bind ih fun rows => .pure _

theorem collect_onlyReads (ref : TableRef) (schema : Schema) :
    StreamM.OnlyReads (stream ref schema).collect := by
  intro s db h
  rw [RowStream.collect_run]
  exact take_onlyReads ref schema _ s db h

theorem rewind_onlyReads : StreamM.OnlyReads rewind := by
  refine .bind .getState fun state => ?_
  cases state with
  | none => exact .throw _
  | some cursor => exact .setState _

/-- A scan takes from its start as many rows as there can be. -/
theorem drain_run (ref : TableRef) (schema : Schema) (state : State) (db : Database) :
    (stream ref schema).drain.run (state, db) =
      ((stream ref schema).take ((stream ref schema).bound (some ⟨0, []⟩) db + 1)).run
        (some ⟨0, []⟩, db) := by
  rw [RowStream.drain_run (stream ref schema) rfl, RowStream.collect_run]

theorem drain_onlyReads (ref : TableRef) (schema : Schema) :
    StreamM.OnlyReads (stream ref schema).drain :=
  .bind (.setState _) fun _ => collect_onlyReads ref schema

end Scan

/-- **A scan is quiet**, however it ends. -/
theorem Sound.scanTable_quiets {db : Database} (h : Sound db) (id : TableId) :
    Quiets db (endState ((Database.scanTable id).run db)) := by
  simp only [Database.scanTable, EStateM.run_bind, Database.tableOf_run]
  cases href : db.ref? id with
  | none => exact .refl
  | some ref =>
    obtain ⟨x, hx⟩ := h.registered.exists_extent href
    obtain ⟨f, hfile, -⟩ := h.registered.file_run href hx
    simp only [hfile]
    exact (Scan.drain_onlyReads ref f.layout.schema).runFrom none h

/-! ## 2. What a scan lists -/

/-- The rows of a page, by slot. -/
def Content.rows (content : Content) : List Row := content.slots.toList.flatMap Option.toList

namespace Database

/-- The rows that a page has by what it says. -/
def pageRows (db : Database) (id : PageId) : List Row :=
  ((db.content? id).map Content.rows).getD []

/-- The rows of a table by what its pages say, in order. -/
def tableRows (db : Database) (id : TableId) : List Row :=
  (List.range ((db.pageCount? id).getD 0)).flatMap fun number => db.pageRows ⟨id, number⟩

theorem pageRows_of_cached {db : Database} {id : PageId} {frame : Frame}
    (hframe : db.pool.cache.peek? id = some frame) : db.pageRows id = frame.page.rows := by
  rw [pageRows, content?_of_cached hframe]
  rfl

theorem pageRows_congr {db db' : Database} (h : db'.content? = db.content?) :
    db'.pageRows = db.pageRows := by
  funext id
  rw [pageRows, pageRows, h]

theorem tableRows_congr {db db' : Database} (hextent : db'.extent? = db.extent?)
    (hcontent : db'.content? = db.content?) : db'.tableRows = db.tableRows := by
  funext id
  rw [tableRows, tableRows, pageCount?_congr hextent, pageRows_congr hcontent]

/-- A page of a table has no more rows than slots can be numbered. -/
theorem length_pageRows_le {db : Database} (h : Sound db) (id : PageId) :
    (db.pageRows id).length ≤ 65536 := by
  cases hframe : db.pool.cache.peek? id with
  | some frame =>
    rw [pageRows_of_cached hframe]
    exact (h.valid_page hframe).length_rows_le
  | none =>
    rw [pageRows, content?_of_absent hframe, Option.map_map]
    cases hpage : db.stored? id with
    | none => simp
    | some page =>
      obtain ⟨x, image, -, -, hdecode⟩ := exists_of_stored? hpage
      exact (Page.Valid.of_decode hdecode).length_rows_le

end Database

namespace Scan

/-- What is left of a scan: the rest of its page, and what the pages behind it say. -/
def remains (db : Database) (id : TableId) (count : Nat) (cursor : Cursor) : List Row :=
  cursor.rows ++
    ((List.range count).drop cursor.nextPage).flatMap fun number => db.pageRows ⟨id, number⟩

section Remains

variable {db : Database} {id : TableId} {count : Nat}

theorem remains_behind {cursor : Cursor} (h : count ≤ cursor.nextPage) :
    remains db id count cursor = cursor.rows := by
  rw [remains, List.drop_eq_nil_of_le (by rwa [List.length_range]), List.flatMap_nil,
    List.append_nil]

/-- The next page is the first of those that are left. -/
theorem remains_page {number : Nat} (h : number < count) :
    remains db id count ⟨number, []⟩ =
      remains db id count ⟨number + 1, db.pageRows ⟨id, number⟩⟩ := by
  have hlt : number < (List.range count).length := by rwa [List.length_range]
  rw [remains, remains, List.nil_append, List.drop_eq_getElem_cons hlt, List.flatMap_cons,
    List.getElem_range]

theorem remains_congr {db' : Database} (h : db'.content? = db.content?) (cursor : Cursor) :
    remains db' id count cursor = remains db id count cursor := by
  rw [remains, remains, Database.pageRows_congr h]

/-- A page has no more rows than slots can be numbered. -/
theorem length_remains_le_pages (h : Sound db) (id : TableId) (count : Nat) (cursor : Cursor) :
    (remains db id count cursor).length ≤
      cursor.rows.length + (count - cursor.nextPage) * 65536 := by
  have hpages : ∀ numbers : List Nat,
      (numbers.flatMap fun number => db.pageRows ⟨id, number⟩).length ≤
        numbers.length * 65536 := by
    intro numbers
    induction numbers with
    | nil => simp
    | cons number numbers ih =>
      have := Database.length_pageRows_le h ⟨id, number⟩
      rw [List.flatMap_cons, List.length_append, List.length_cons]
      omega
  have hdrop := hpages ((List.range count).drop cursor.nextPage)
  rw [List.length_drop, List.length_range] at hdrop
  rw [remains, List.length_append]
  omega

theorem length_remains_le (h : Sound db) (id : TableId) (count : Nat) (cursor : Cursor) :
    (remains db id count cursor).length ≤ cursor.rows.length + count * 65536 := by
  have hall := Nat.mul_le_mul_right 65536 (Nat.sub_le count cursor.nextPage)
  exact (length_remains_le_pages h id count cursor).trans (Nat.add_le_add_left hall _)

end Remains

section Says

variable {db db' : Database} {id : TableId} {ref : TableRef} {x : Extent}

/-- **The next row**, if a scan finds one, is the first of what is left; and if it finds none then
nothing is left.  By induction on the fuel, of which every page that is fetched costs one. -/
theorem advance_says (h : Sound db) (hs : Settled db) (href : db.ref? id = some ref)
    (hx : db.extent? id = some x) {fuel : Nat} {cursor : Cursor}
    (hpage : cursor.nextPage ≤ x.count) (hfuel : x.count < cursor.nextPage + fuel)
    {result : Option Row} {state : State}
    (hrun : (advance ref fuel cursor).run (some cursor, db) = .ok result (state, db')) :
    ∃ cursor', state = some cursor' ∧ cursor'.nextPage ≤ x.count ∧ Quiets db db' ∧
      remains db id x.count cursor = result.toList ++ remains db id x.count cursor' ∧
      (result = none → remains db id x.count cursor' = []) := by
  induction fuel generalizing cursor db with
  | zero => omega
  | succ fuel ih =>
    obtain ⟨number, rows⟩ := cursor
    cases rows with
    | cons row rest =>
      simp only [advance, EStateM.run_bind, StreamM.run_setState, EStateM.run_pure] at hrun
      cases hrun
      exact ⟨⟨number, rest⟩, rfl, hpage, .refl, rfl, fun hnone => by cases hnone⟩
    | nil =>
      obtain ⟨f, hfile, hd⟩ := h.registered.file_run href hx
      have hfile' := StreamM.run_onDatabase_ok hfile (some (⟨number, []⟩ : Cursor))
      by_cases hend : x.count ≤ number
      · simp only [advance, EStateM.run_bind, hfile', hd.count, if_pos hend, EStateM.run_pure]
          at hrun
        cases hrun
        exact ⟨⟨number, []⟩, rfl, hpage, .refl, rfl, fun _ => remains_behind hend⟩
      · have hlt : number < x.count := Nat.lt_of_not_le hend
        have hfetch := h.fetch_run ⟨id, number⟩
        simp only [advance, EStateM.run_bind, hfile', hd.count, if_neg hend, hd.id] at hrun
        cases hr : (Database.fetch ⟨id, number⟩).run db with
        | error e db₁ =>
          simp only [StreamM.run_onDatabase, hr] at hrun
          cases hrun
        | ok frame db₁ =>
          rw [hr] at hfetch
          have hq := hfetch.quiets_of_ok h
          obtain ⟨hs₁, hcontent⟩ := hs.quiets h hq
          have href₁ := (hq.steps.ref? id).trans href
          have hx₁ := (congrFun (h.extent?_quiets hq) id).trans hx
          have hrows : frame.page.rows = db.pageRows ⟨id, number⟩ := by
            rw [← Database.pageRows_congr hcontent,
              Database.pageRows_of_cached (hfetch.cached h)]
          simp only [StreamM.run_onDatabase_ok hr, StreamM.run_setState] at hrun
          have hpage₁ : (⟨number + 1, frame.page.rows⟩ : Cursor).nextPage ≤ x.count := hlt
          have hfuel₁ : x.count < number + 1 + fuel := by
            change x.count < number + (fuel + 1) at hfuel
            omega
          obtain ⟨cursor', hstate, hpage', hq', hleft, hnone⟩ :=
            ih (h.quiets hq) hs₁ href₁ hx₁ hpage₁ hfuel₁ hrun
          refine ⟨cursor', hstate, hpage', hq.trans hq', ?_, fun h => ?_⟩
          · rw [remains_page hlt, ← hrows, ← remains_congr hcontent, hleft,
              remains_congr hcontent]
          · rw [← remains_congr hcontent]
            exact hnone h

theorem le_pageBound (h : Sound db) (href : db.ref? id = some ref) (hx : db.extent? id = some x) :
    x.count ≤ pageBound db ref := by
  obtain ⟨f, hf, -⟩ := h.registered _ _ href
  obtain rfl := Option.some.inj
    ((Database.extent?_of_table ((Database.table?_of_ref href).trans hf)).symm.trans hx)
  rw [pageBound, hf]
  exact le_foldl_max _ _

/-- Taking rows gives the first of what is left. -/
theorem take_says (h : Sound db) (hs : Settled db) (href : db.ref? id = some ref)
    (hx : db.extent? id = some x) (schema : Schema) {count : Nat} {cursor : Cursor}
    (hpage : cursor.nextPage ≤ x.count) {rows : List Row} {state : State}
    (hrun : ((stream ref schema).take count).run (some cursor, db) = .ok rows (state, db')) :
    rows = (remains db id x.count cursor).take count := by
  induction count generalizing cursor db rows with
  | zero =>
    cases hrun
    rfl
  | succ count ih =>
    have hbound := le_pageBound h href hx
    have hnext : (stream ref schema).next.run (some cursor, db) =
        (advance ref (pageBound db ref + 1) cursor).run (some cursor, db) := by
      change (next ref).run (some cursor, db) = _
      simp only [next, EStateM.run_bind, StreamM.run_getState, StreamM.run_getDatabase]
    simp only [RowStream.take, EStateM.run_bind, hnext] at hrun
    cases hr : (advance ref (pageBound db ref + 1) cursor).run (some cursor, db) with
    | error e s =>
      rw [hr] at hrun
      cases hrun
    | ok result s =>
      obtain ⟨state₁, db₁⟩ := s
      obtain ⟨cursor', rfl, hpage', hq, hleft, hnone⟩ :=
        advance_says h hs href hx hpage (by omega) hr
      simp only [hr] at hrun
      cases result with
      | none =>
        cases hrun
        rw [hleft, hnone rfl]
        rfl
      | some row =>
        obtain ⟨hs₁, hcontent⟩ := hs.quiets h hq
        have href₁ := (hq.steps.ref? id).trans href
        have hx₁ := (congrFun (h.extent?_quiets hq) id).trans hx
        simp only [EStateM.run_bind] at hrun
        cases hr' : ((stream ref schema).take count).run (some cursor', db₁) with
        | error e s =>
          rw [hr'] at hrun
          cases hrun
        | ok rest s =>
          obtain ⟨state₂, db₂⟩ := s
          simp only [hr', EStateM.run_pure] at hrun
          cases hrun
          rw [ih (h.quiets hq) hs₁ href₁ hx₁ hpage' hr', hleft, remains_congr hcontent]
          rfl

end Says

end Scan

/-- **A scan that succeeds** lists what the pages of its table say. -/
theorem Settled.scanTable_eq {db db' : Database} (hs : Settled db) (h : Sound db) {id : TableId}
    {rows : List Row} (hrun : (Database.scanTable id).run db = .ok rows db') :
    rows = db.tableRows id := by
  simp only [Database.scanTable, EStateM.run_bind, Database.tableOf_run] at hrun
  cases href : db.ref? id with
  | none =>
    simp only [href] at hrun
    cases hrun
  | some ref =>
    obtain ⟨x, hx⟩ := h.registered.exists_extent href
    obtain ⟨f, hfile, -⟩ := h.registered.file_run href hx
    simp only [href, hfile] at hrun
    have hcount : db.pageCount? id = some x.count := by
      rw [Database.pageCount?_eq, hx, Option.map_some]
    have hrows : db.tableRows id = Scan.remains db id x.count ⟨0, []⟩ := by
      rw [Database.tableRows, hcount, Scan.remains]
      rfl
    have hbound := Scan.le_pageBound h href hx
    have hlength := Scan.length_remains_le h id x.count ⟨0, []⟩
    rw [StreamM.run_runFrom, Scan.drain_run] at hrun
    cases hr : ((Scan.stream ref f.layout.schema).take
        ((Scan.stream ref f.layout.schema).bound (some ⟨0, []⟩) db + 1)).run
          (some ⟨0, []⟩, db) with
    | error e s =>
      simp only [hr] at hrun
      cases hrun
    | ok rows' s =>
      obtain ⟨state, db₁⟩ := s
      simp only [hr] at hrun
      cases hrun
      have hstart : (⟨0, []⟩ : Scan.Cursor).nextPage ≤ x.count := Nat.zero_le _
      have htake := Scan.take_says h hs href hx f.layout.schema hstart hr
      have hall : (Scan.stream ref f.layout.schema).bound (some ⟨0, []⟩) db =
          Scan.pageBound db ref * 65536 := Nat.zero_add _
      rw [htake, hrows, List.take_of_length_le]
      rw [hall]
      rw [List.length_nil, Nat.zero_add] at hlength
      exact Nat.le_succ_of_le (Nat.le_trans hlength (Nat.mul_le_mul_right _ hbound))

end RowStore
