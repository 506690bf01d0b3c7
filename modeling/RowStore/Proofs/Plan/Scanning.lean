/-
# A scan of a table that is being changed

While a scan is under way, the users of the database store and delete rows, hold pages and let them
go, and have pages flushed and evicted.  A scan keeps the rows of one page and looks at the others
when it comes to them, so it sees no single state of its table.  What it does hand out is told by
the databases that it has lived through (`Running.moments`): rows of some of them, in the order of
their places, and all rows that are in each of them, once (`Running.scan_between_changes`).

This is carried through the events by what a scan has come by (`Scan.Seen`), the rows at hand
included.  An act adds a moment, which can only take rows away from those that have been there all
the time.  A page that is passed brings in its rows as they are then, and these lie behind all
others.
-/
import RowStore.Proofs.Plan.Running
import RowStore.Proofs.Stream.Passing

namespace RowStore

/-! ## 1. Moments -/

/-- The users of the database do as they like, marking what they change; the plan is asked for rows
and for nothing else. -/
def Event.Asks : Event → Prop
  | .act a => a.Marked
  | .call .next => True
  | .call _ => False

/-- The rows among the replies. -/
def Reply.rows (replies : List Reply) : List Row :=
  replies.filterMap fun
    | .row answer => answer
    | _ => none

@[simp] theorem Reply.rows_append (replies replies' : List Reply) :
    rows (replies ++ replies') = rows replies ++ rows replies' :=
  List.filterMap_append

/-- The database behind each of the events. -/
def Running.moments (r : Running) : List Event → List Database
  | [] => []
  | e :: events => (r.step e).2.session.db :: (r.step e).2.moments events

theorem Running.moments_append (r : Running) (events events' : List Event) :
    r.moments (events ++ events') = r.moments events ++ (r.after events).moments events' := by
  induction events generalizing r with
  | nil => rfl
  | cons e events ih => exact congrArg (List.cons _) (ih _)

namespace Scan

/-! ## 2. What a scan has come by -/

/-- In front of a page, and with the databases of `past` behind it, a scan has come by the rows. -/
structure Seen (past : List Database) (table : TableId) (front : Nat) (rows : List Row) : Prop where
  placed : ∀ row ∈ rows, ∃ number slot, row.place = some ⟨⟨table, number⟩, slot⟩ ∧ number < front
  ascending : rows.Pairwise Row.Precedes
  stored : ∀ row ∈ rows, ∃ db ∈ past, row ∈ db.tableRows table
  complete : ∀ {row number slot}, row.place = some ⟨⟨table, number⟩, slot⟩ → number < front →
    (∀ db ∈ past, row ∈ db.tableRows table) → row ∈ rows

/-- What comes before and after a number of pages that are passed. -/
theorem remains_succ {db : Database} {table : TableId} {front number : Nat} (h : front ≤ number) :
    remains db table (number + 1) ⟨front, []⟩ =
      remains db table number ⟨front, []⟩ ++ db.pageRows ⟨table, number⟩ := by
  have hle : front ≤ (List.range number).length := by rwa [List.length_range]
  simp only [remains, List.nil_append, List.range_succ, List.drop_append_of_le_length hle,
    List.flatMap_append, List.flatMap_singleton]

namespace Seen

variable {past : List Database} {table : TableId} {front : Nat} {rows : List Row} {db : Database}
  {x : Extent}

theorem first (past : List Database) (table : TableId) : Seen past table 0 [] where
  placed := by simp
  ascending := .nil
  stored := by simp
  complete _ hlt := absurd hlt (Nat.not_lt_zero _)

/-- Time goes on. -/
theorem later (h : Seen past table front rows) (dbs : List Database) :
    Seen (past ++ dbs) table front rows where
  placed := h.placed
  ascending := h.ascending
  stored row hrow := by
    obtain ⟨db, hdb, hstored⟩ := h.stored row hrow
    exact ⟨db, List.mem_append_left _ hdb, hstored⟩
  complete hplace hlt hall :=
    h.complete hplace hlt fun db hdb => hall db (List.mem_append_left _ hdb)

/-- **A page is passed**: its rows lie behind all that the scan has come by. -/
theorem page (h : Seen past table front rows) (hdb : db ∈ past) (hsound : Sound db)
    (hx : db.extent? table = some x) (hlt : front < x.count) :
    Seen past table (front + 1) (rows ++ db.pageRows ⟨table, front⟩) where
  placed row hrow := by
    rcases List.mem_append.mp hrow with hrow | hrow
    · obtain ⟨number, slot, hplace, hnumber⟩ := h.placed row hrow
      exact ⟨number, slot, hplace, Nat.lt_succ_of_lt hnumber⟩
    · obtain ⟨slot, hplace⟩ := hsound.placed_pageRows hrow
      exact ⟨front, slot, hplace, Nat.lt_succ_self front⟩
  ascending := by
    refine List.pairwise_append.mpr ⟨h.ascending, hsound.ascending_pageRows _, ?_⟩
    intro row hrow row' hrow'
    obtain ⟨number, slot, hplace, hnumber⟩ := h.placed row hrow
    obtain ⟨slot', hplace'⟩ := hsound.placed_pageRows hrow'
    exact ⟨_, _, hplace, hplace', rfl, .inl hnumber⟩
  stored row hrow := by
    rcases List.mem_append.mp hrow with hrow | hrow
    · exact h.stored row hrow
    · exact ⟨db, hdb, Database.mem_tableRows hx hlt hrow⟩
  complete := by
    intro row number slot hplace hnumber hall
    rcases Nat.lt_succ_iff_lt_or_eq.mp hnumber with hnumber | rfl
    · exact List.mem_append_left _ (h.complete hplace hnumber hall)
    · -- a row has one place, so it is on this page also now
      obtain ⟨number', slot', hplace', -, hrow⟩ := hsound.placed_tableRows hx (hall db hdb)
      obtain ⟨⟨⟩⟩ := hplace.symm.trans hplace'
      exact List.mem_append_right _ hrow

/-- Any number of pages are passed. -/
theorem pages (h : Seen past table front rows) (hdb : db ∈ past) (hsound : Sound db)
    (hx : db.extent? table = some x) {front' : Nat} (hle : front ≤ front')
    (hwithin : front' ≤ max front x.count) :
    Seen past table front' (rows ++ remains db table front' ⟨front, []⟩) := by
  induction front', hle using Nat.le_induction with
  | base =>
    rw [remains_behind (Nat.le_refl front), List.append_nil]
    exact h
  | succ number hle ih =>
    have hseen := ih (Nat.le_of_succ_le hwithin)
    rw [remains_succ hle, ← List.append_assoc]
    exact hseen.page hdb hsound hx (by omega)

/-- **A scan goes on**, handing out what it takes. -/
theorem passed {given taken : List Row} {cursor cursor' : Cursor}
    (h : Seen past table cursor.nextPage (given ++ cursor.rows)) (hdb : db ∈ past)
    (hsound : Sound db) (hx : db.extent? table = some x)
    (hp : Passed db table x.count cursor cursor' taken) :
    Seen past table cursor'.nextPage (given ++ taken ++ cursor'.rows) := by
  have hall := h.pages hdb hsound hx hp.le hp.within
  have hrows : cursor.rows ++ remains db table cursor'.nextPage ⟨cursor.nextPage, []⟩ =
      taken ++ cursor'.rows := hp.rows
  rwa [List.append_assoc, hrows, ← List.append_assoc] at hall

/-- In front of the end, a scan has come by whatever has been there all the time. -/
theorem count_eq_one (h : Seen past table front rows) (hdb : db ∈ past) (hsound : Sound db)
    (hx : db.extent? table = some x) (hend : x.count ≤ front) {row : Row}
    (hall : ∀ db ∈ past, row ∈ db.tableRows table) : rows.count row = 1 := by
  obtain ⟨number, slot, hplace, hlt, -⟩ := hsound.placed_tableRows hx (hall db hdb)
  have hmem := h.complete hplace (Nat.lt_of_lt_of_le hlt hend) hall
  exact List.count_eq_one_of_mem (nodup_of_precedes h.ascending) hmem

end Seen

end Scan

/-! ## 3. Scans beside a session -/

/-- What acts leave alone that mark their changes. -/
theorem Session.perform_kept {s : Session} (h : Sound s.db) (hs : Settled s.db) {act : Act}
    (hmarked : act.Marked) :
    Sound (endState ((perform act).run s)).db ∧ Settled (endState ((perform act).run s)).db ∧
      ∀ id, (endState ((perform act).run s)).db.ref? id = s.db.ref? id := by
  have hm := perform_moved h act
  refine ⟨hm.sound h, hm.settled h hmarked hs, ?_⟩
  intro id
  rw [Database.ref?, hm.stays.catalog]
  rfl

/-- Any session is in order, on tables that any openings have led to. -/
theorem Session.sound_settled_after {disk : Disk} {pageSize capacity : Nat} {db₀ : Database}
    (h₀ : Database.onDisk disk pageSize capacity = .ok db₀) {openings : List Opening}
    (hseparate : (db₀.openAll openings).Separate) {acts : List Act}
    (hmarked : ∀ act ∈ acts, act.Marked) {s : Session}
    (hs : s = (start (db₀.openAll openings)).after acts) : Sound s.db ∧ Settled s.db := by
  obtain ⟨hsound, hempty⟩ := Database.sound_openAll h₀ hseparate
  subst hs
  constructor
  · exact sound_after hsound acts
  · exact settled_after hsound (.of_empty hempty) hmarked

namespace Running

open Scan

/-- A scan is under way beside the session, with one of the databases of `past` before it. -/
structure Scans (table : TableId) (past : List Database) (given : List Row) (r : Running) :
    Prop where
  sound : Sound r.session.db
  settled : Settled r.session.db
  now : r.session.db ∈ past
  under : ∃ ref schema cursor, r.session.db.ref? table = some ref ∧
    r.query = ⟨.scan ref schema, (some cursor : Scan.State)⟩ ∧
    Seen past table cursor.nextPage (given ++ cursor.rows)

variable {table : TableId} {past : List Database} {given : List Row} {r : Running}

theorem Scans.act (h : Scans table past given r) {act : Act} (hmarked : act.Marked) :
    Scans table (past ++ [(r.step (.act act)).2.session.db]) given (r.step (.act act)).2 := by
  obtain ⟨ref, schema, cursor, href, hquery, hseen⟩ := h.under
  obtain ⟨hsound, hsettled, hkept⟩ := Session.perform_kept h.sound h.settled hmarked
  exact ⟨hsound, hsettled, by simp,
    ref, schema, cursor, (hkept table).trans href, hquery, hseen.later _⟩

/-- A scan that is asked for a row hands it out, or comes to the end of the table, or fails. -/
theorem Scans.next (h : Scans table past given r) :
    ∃ reply, (r.step (.call .next)).1 = some reply ∧
      Scans table (past ++ [(r.step (.call .next)).2.session.db]) (given ++ Reply.rows [reply])
        (r.step (.call .next)).2 ∧
      (reply = .row none → ∀ row, (∀ db ∈ past, row ∈ db.tableRows table) →
        given.count row = 1) := by
  obtain ⟨s, query⟩ := r
  obtain ⟨ref, schema, cursor, href, hquery, hseen⟩ := h.under
  obtain rfl : query = ⟨.scan ref schema, (some cursor : Scan.State)⟩ := hquery
  obtain ⟨x, hx⟩ := h.sound.registered.exists_extent href
  have hnext := next_advanced h.sound h.settled href hx cursor
  have hkept : ∀ {db'}, Quiets s.db db' → ∀ {cursor' taken},
      Passed s.db table x.count cursor cursor' taken →
      Scans table (past ++ [db']) (given ++ taken)
        ⟨{ s with db := db' }, ⟨.scan ref schema, (some cursor' : Scan.State)⟩⟩ := by
    intro db' hq cursor' taken hp
    exact ⟨h.sound.quiets hq, (h.settled.quiets h.sound hq).1, by simp, ref, schema, cursor',
      (hq.steps.ref? table).trans href, rfl, (hseen.passed h.now h.sound hx hp).later _⟩
  have hstep : ∀ {reply state' db'},
      RowStream.replied .row ((Scan.next ref).run (some cursor, s.db)) = (reply, (state', db')) →
      (Running.mk s ⟨.scan ref schema, (some cursor : Scan.State)⟩).step (.call .next) =
        (some reply, ⟨{ s with db := db' }, ⟨.scan ref schema, state'⟩⟩) := fun hcall =>
    @step_call s (.scan ref schema) (some cursor : Scan.State) _ _ .next _ hcall
  generalize (Scan.next ref).run (some cursor, s.db) = result at hnext hstep
  cases hnext with
  | row hq hp =>
    rw [hstep rfl]
    exact ⟨_, rfl, hkept hq hp, by simp⟩
  | failed hq hp =>
    rw [hstep rfl]
    exact ⟨_, rfl, hkept hq hp, by simp⟩
  | @ended number db' hq hp hend =>
    rw [hstep rfl]
    refine ⟨_, rfl, hkept hq hp, ?_⟩
    intro _ row hall
    have hgiven := hseen.passed h.now h.sound hx hp
    rw [List.append_nil, List.append_nil] at hgiven
    exact hgiven.count_eq_one h.now h.sound hx hend hall

/-- **Whatever comes between**, a scan goes on from what it has come by.  By induction on the
events. -/
theorem Scans.after (h : Scans table past given r) {events : List Event}
    (hasks : ∀ e ∈ events, e.Asks) :
    Scans table (past ++ r.moments events) (given ++ Reply.rows (r.replies events))
      (r.after events) := by
  induction events generalizing r past given with
  | nil =>
    simp only [moments, replies, Running.after, Reply.rows, List.filterMap_nil, List.append_nil]
    exact h
  | cons e events ih =>
    obtain ⟨hask, hasks'⟩ := List.forall_mem_cons.mp hasks
    rw [moments, replies, Running.after, Reply.rows_append, ← List.append_assoc,
      List.append_cons]
    cases e with
    | act act =>
      have hrest := ih (h.act hask) hasks'
      rw [← List.append_nil given] at hrest
      exact hrest
    | call call =>
      cases call with
      | next =>
        obtain ⟨reply, hreply, hnext, -⟩ := h.next
        have hrest := ih hnext hasks'
        rw [hreply]
        exact hrest
      | start => cases hask
      | rewind => cases hask
      | close => cases hask

/-- **A scan of a table that is being changed.** Take tables that any openings have led to, each
with a file of its own, and any session on them in which changes through handles are marked.  A scan
of one of the tables is started and asked for rows until it says that there are no more; in between,
the session goes on in any way, and requests may fail and be made again.  Then the rows that are
handed out come in the order of their places, each of them was in the table at some moment of the
scan, with its place and its values, and a row that was in the table at every moment is handed out
once. -/
theorem scan_between_changes {disk : Disk} {pageSize capacity : Nat} {db₀ : Database}
    (h₀ : Database.onDisk disk pageSize capacity = .ok db₀) (openings : List Opening)
    (hseparate : (db₀.openAll openings).Separate) {acts : List Act}
    (hmarked : ∀ act ∈ acts, act.Marked) {s : Session}
    (hs : s = (Session.start (db₀.openAll openings)).after acts) {table : TableId} {ref : TableRef}
    (href : s.db.ref? table = some ref) (schema : Schema) (state : Scan.State) {r : Running}
    (hr : r = (Running.mk s ⟨.scan ref schema, state⟩).after [.call .start]) {events : List Event}
    (hasks : ∀ e ∈ events, e.Asks) {answers : List Reply}
    (hanswers : r.replies (events ++ [.call .next]) = answers ++ [.row none]) :
    (Reply.rows answers).Pairwise Row.Precedes ∧
      (∀ row ∈ Reply.rows answers,
        ∃ db ∈ r.session.db :: r.moments (events ++ [.call .next]), row ∈ db.tableRows table) ∧
      ∀ row, (∀ db ∈ r.session.db :: r.moments (events ++ [.call .next]),
        row ∈ db.tableRows table) → (Reply.rows answers).count row = 1 := by
  obtain ⟨hsound, hsettled⟩ := Session.sound_settled_after h₀ hseparate hmarked hs
  have hstart : r = ⟨s, ⟨.scan ref schema, (some ⟨0, []⟩ : Scan.State)⟩⟩ := hr
  have hscans : Scans table [r.session.db] [] r := by
    rw [hstart]
    exact ⟨hsound, hsettled, List.mem_singleton_self _, ref, schema, ⟨0, []⟩, href, rfl,
      .first _ table⟩
  have hafter := hscans.after hasks
  obtain ⟨reply, hreply, -, hend⟩ := hafter.next
  rw [replies_append] at hanswers
  have hreplies : (r.after events).replies [.call .next] = [reply] := by
    rw [replies, hreply]
    rfl
  rw [hreplies] at hanswers
  obtain ⟨hrest, hnone⟩ := List.append_inj' hanswers rfl
  rw [List.nil_append, hrest] at hafter hend
  have hmoments : r.session.db :: r.moments (events ++ [.call .next]) =
      [r.session.db] ++ r.moments events ++
        [((r.after events).step (.call .next)).2.session.db] := by
    rw [moments_append]
    rfl
  obtain ⟨ref', schema', cursor, -, -, hseen⟩ := hafter.under
  refine ⟨(List.pairwise_append.mp hseen.ascending).1, ?_, ?_⟩
  · intro row hrow
    obtain ⟨db, hdb, hstored⟩ := hseen.stored row (List.mem_append_left _ hrow)
    rw [hmoments]
    exact ⟨db, List.mem_append_left _ hdb, hstored⟩
  · intro row hall
    rw [hmoments] at hall
    exact hend (List.cons.inj hnone).1 row fun db hdb => hall db (List.mem_append_left _ hdb)

/-- A page is appended while the scan stands behind the first one, and then the only frame of the
pool is held, so that the scan has to be asked again. -/
theorem scan_between_changes_appended :
    ∃ (s : Session) (r : Running) (events : List Event) (answers : List Reply) (seven eight : Row),
      (∀ e ∈ events, e.Asks) ∧
      r = (Running.mk s ⟨.scan ⟨0⟩ Sample.schema, (none : Scan.State)⟩).after [.call .start] ∧
      r.replies (events ++ [.call .next]) = answers ++ [.row none] ∧
      answers = [.row (some seven), .failed .allPinned, .row (some eight)] ∧
      (Reply.rows answers).Pairwise Row.Precedes ∧
      (∃ db ∈ r.session.db :: r.moments (events ++ [.call .next]), eight ∈ db.tableRows 0) ∧
      (Reply.rows answers).count seven = 1 := by
  let seven : Row := ⟨Sample.schema, [.int 7], some ⟨⟨0, 0⟩, 0⟩, rfl⟩
  let eight : Row := ⟨Sample.schema, [.int 8], some ⟨⟨0, 1⟩, 0⟩, rfl⟩
  let s := Session.start (Sample.opened 1)
  let events : List Event := [.call .next, .act (.row (eight.movedTo none)), .act (.insert 0 0),
    .act (.get ⟨0, 0⟩), .call .next, .act (.letGo 0), .call .next]
  let answers : List Reply := [.row (some seven), .failed .allPinned, .row (some eight)]
  let r := (Running.mk s ⟨.scan ⟨0⟩ Sample.schema, (none : Scan.State)⟩).after [.call .start]
  have h₀ : Database.onDisk Sample.disk 8 1 = .ok (Sample.database 1) := rfl
  have hs : s = (Session.start ((Sample.database 1).openAll [Sample.opening])).after [] := by
    rw [Sample.openAll_eq]
    rfl
  have href : s.db.ref? 0 = some ⟨0⟩ := by cbv
  have hasks : ∀ e ∈ events, e.Asks := by simp [events, Event.Asks, Act.Marked]
  have hanswers : r.replies (events ++ [.call .next]) = answers ++ [.row none] := by cbv
  have hall : (r.session.db :: r.moments (events ++ [.call .next])).all
      (fun db => decide (seven ∈ db.tableRows 0)) = true := by cbv
  obtain ⟨hascending, hstored, honce⟩ := scan_between_changes h₀ [Sample.opening]
    (Sample.ordinary 1).separate (by simp) hs href Sample.schema none rfl hasks hanswers
  refine ⟨s, r, events, answers, seven, eight, hasks, rfl, hanswers, rfl, hascending,
    hstored eight ?_, honce seven fun db hdb => ?_⟩
  · simp [answers, Reply.rows]
  · exact of_decide_eq_true (List.all_eq_true.mp hall db hdb)

end Running
end RowStore
