/-
# No more rows

A plan that says that there are no more rows should say so until it is started again or rewound.
That the tables change in the meantime makes no difference to a listing, which has its rows, to an
aggregate, which has its results, or to a join, which notes that its outer stream has come to an
end; whatever stands below these (`Running.none_until_restarted`).  A scan counts the pages of its
table anew each time.  It keeps to its answer as long as no page is added to the table, and hands
out the rows of a page that is (`Running.row_after_none`).

What a plan is asked from a state in which it is exhausted is easy to say
(`Plan.next_of_exhausted`).  That it is exhausted when it says so is not, for the loop of a join
could also have come to the end of its fuel.  It has not, in any state that calls and acts can lead
to (`Plan.BuiltOver.exhausted_of_next`).
-/
import RowStore.Proofs.Plan.Scanning
import RowStore.Proofs.Stream.Limits

namespace RowStore

/-- How many pages the table in a file has. -/
def Database.pagesIn (db : Database) (ref : TableRef) : Nat :=
  (db.files[ref.index]?.map (·.pageCount)).getD 0

theorem Sound.pagesIn_eq {db : Database} (h : Sound db) {id : TableId} {ref : TableRef} {x : Extent}
    (href : db.ref? id = some ref) (hx : db.extent? id = some x) : db.pagesIn ref = x.count := by
  obtain ⟨f, hf, -⟩ := h.registered _ _ href
  obtain rfl := Option.some.inj
    ((Database.extent?_of_table ((Database.table?_of_ref href).trans hf)).symm.trans hx)
  rw [Database.pagesIn, hf]
  rfl

namespace Plan

/-! ## 1. The states of a plan -/

/-- What is so of the states that a plan can come to. -/
def Fit : (p : Plan) → p.State → Prop
  | listing _ rows, s => ((s : Listing.State).getD []).length ≤ rows.length
  | scan _ _, _ => True
  | join _ o i, s => Join.Fit o.Fit i.Fit (s : Join.State o.State i.State)
  | aggregate _ child, s => Aggregate.Fit child.Fit (s : Aggregate.State child.State)

theorem keeps (p : Plan) : p.stream.Keeps p.Fit := by
  induction p with
  | listing schema rows => exact Listing.keeps schema rows
  | scan table schema => exact Scan.keeps table schema
  | join settings o i iho ihi => exact Join.keeps settings iho ihi
  | aggregate settings child ih => exact Aggregate.keeps settings ih

theorem fit_closed (p : Plan) : p.Fit p.closed := by
  induction p with
  | listing schema rows => exact Nat.zero_le _
  | scan table schema => trivial
  | join settings o i iho ihi => exact ⟨iho, ihi⟩
  | aggregate settings child ih =>
    refine ⟨ih, ?_⟩
    rintro results ⟨⟩

/-- The plan has nothing left to hand out; if it is a scan, it stands behind the last page that its
table has in the database. -/
def Exhausted (db : Database) : (p : Plan) → p.State → Prop
  | listing _ _, s => (s : Listing.State) = some []
  | scan table _, s => ∃ number, (s : Scan.State) = some ⟨number, []⟩ ∧ db.pagesIn table ≤ number
  | join _ o i, s => Join.Spent (s : Join.State o.State i.State)
  | aggregate _ child, s => ∃ all, (s : Aggregate.State child.State).results = some ⟨all, []⟩

/-- If the plan is a scan, its table has no more pages than before. -/
def NoneAdded (db db' : Database) : Plan → Prop
  | scan table _ => db'.pagesIn table ≤ db.pagesIn table
  | _ => True

theorem noneAdded_refl (db : Database) (p : Plan) : p.NoneAdded db db := by
  cases p with
  | scan table schema => exact Nat.le_refl _
  | _ => trivial

theorem scanOf_scan {db db' : Database} {ref : TableRef} {p : Plan}
    (h : (scanOf ref).run db = .ok p db') : ∃ schema, p = scan ref schema := by
  rw [scanOf, EStateM.run_bind] at h
  cases hfile : (Database.file ref).run db with
  | error e s =>
    rw [hfile] at h
    cases h
  | ok f s =>
    rw [hfile] at h
    cases h
    exact ⟨_, rfl⟩

/-! ## 2. What an exhausted plan is asked -/

/-- **An exhausted plan** says that there are no more rows, and stays as it is. -/
theorem next_of_exhausted {db db' : Database} {p : Plan} {state : p.State}
    (h : p.Exhausted db state) (hadded : p.NoneAdded db db')
    (hthere : ∀ table schema, p = scan table schema → (db'.files[table.index]?).isSome) :
    p.stream.next.run (state, db') = .ok none (state, db') := by
  cases p with
  | listing schema rows =>
    obtain rfl : (state : Listing.State) = some [] := h
    rfl
  | scan table schema =>
    obtain ⟨number, hstate, hle⟩ := h
    obtain rfl : (state : Scan.State) = some ⟨number, []⟩ := hstate
    obtain ⟨f, hf⟩ := Option.isSome_iff_exists.mp (hthere table schema rfl)
    have hcount : f.pageCount ≤ number := by
      have hpages : db'.pagesIn table ≤ db.pagesIn table := hadded
      rw [Database.pagesIn, hf] at hpages
      exact hpages.trans hle
    have hfile : (Database.file table).run db' = .ok f db' := by
      simp only [Database.file, EStateM.run_bind, EStateM.run_get, hf, EStateM.run_pure]
    have hrun := StreamM.run_onDatabase_ok hfile (some (⟨number, []⟩ : Scan.Cursor))
    change (Scan.next table).run (some ⟨number, []⟩, db') = _
    simp only [Scan.next, EStateM.run_bind, StreamM.run_getState, StreamM.run_getDatabase,
      Scan.advance, hrun, if_pos hcount, EStateM.run_pure]
    rfl
  | join settings o i => exact Join.next_of_spent settings o.stream i.stream h db'
  | aggregate settings child =>
    obtain ⟨t, results⟩ := (state : Aggregate.State child.State)
    obtain ⟨all, rfl⟩ := h
    rfl

/-! ## 3. When a plan says that there are no more rows -/

section

variable {db₀ db db' : Database} {p : Plan}

/-- **No loop of a plan runs out**, whatever has become of the tables since it was built.  By
induction on how it was built. -/
theorem BuiltOver.limited (hp : p.BuiltOver db₀) (hrefs : ∀ id, db.ref? id = db₀.ref? id)
    (h : Sound db) (hs : Settled db) :
    ∃ left again, p.stream.Limited p.Fit db left again := by
  induction hp with
  | listing hlist =>
    obtain ⟨rfl, -⟩ := listing?_eq hlist
    exact ⟨_, _, Listing.limited _ _ db⟩
  | @scan id ref p db₁ href hscan =>
    obtain ⟨schema, rfl⟩ := scanOf_scan hscan
    have href' := (hrefs id).trans href
    obtain ⟨x, hx⟩ := h.registered.exists_extent href'
    exact ⟨_, _, Scan.limited h hs href' hx schema⟩
  | join ho hi hjoin iho ihi =>
    obtain ⟨j, rfl, hmake⟩ := join?_eq hjoin
    obtain ⟨-, haccepts⟩ := Join.make_accepts hmake
    obtain ⟨leftO, againO, hlo⟩ := iho
    obtain ⟨leftI, againI, hli⟩ := ihi
    exact ⟨_, _, Join.limited hlo hli h haccepts.outer_pos haccepts.inner_pos⟩
  | aggregate hchild hagg ih =>
    obtain ⟨a, rfl, -⟩ := aggregate?_eq hagg
    obtain ⟨left, again, hl⟩ := ih
    exact ⟨_, _, Aggregate.limited a hl.toKeeps db⟩

/-- **A plan that says that there are no more rows** is exhausted. -/
theorem BuiltOver.exhausted_of_next (hp : p.BuiltOver db₀) (hrefs : ∀ id, db.ref? id = db₀.ref? id)
    (h : Sound db) (hs : Settled db) {state state' : p.State} (hfit : p.Fit state)
    (hrun : p.stream.next.run (state, db) = .ok none (state', db')) : p.Exhausted db' state' := by
  cases hp with
  | listing hlist =>
    obtain ⟨rfl, -⟩ := listing?_eq hlist
    cases hstate : (state : Listing.State) with
    | none =>
      rw [hstate] at hrun
      cases hrun
    | some rest =>
      rw [hstate] at hrun
      cases rest <;> cases hrun
      rfl
  | @scan id ref p db₁ href hscan =>
    obtain ⟨schema, rfl⟩ := scanOf_scan hscan
    have href' := (hrefs id).trans href
    obtain ⟨x, hx⟩ := h.registered.exists_extent href'
    cases hstate : (state : Scan.State) with
    | none =>
      rw [hstate] at hrun
      cases hrun
    | some cursor =>
      have hadvanced := Scan.next_advanced h hs href' hx cursor
      have hrun' : (Scan.next ref).run (some cursor, db) = .ok none (state', db') := by
        rw [← hstate]
        exact hrun
      rw [hrun'] at hadvanced
      cases hadvanced with
      | @ended number db' hq hp hend =>
        have href₁ := (hq.steps.ref? id).trans href'
        have hx₁ := (congrFun (h.extent?_quiets hq) id).trans hx
        exact ⟨number, rfl, ((h.quiets hq).pagesIn_eq href₁ hx₁).trans_le hend⟩
  | join ho hi hjoin =>
    obtain ⟨j, rfl, hmake⟩ := join?_eq hjoin
    obtain ⟨-, haccepts⟩ := Join.make_accepts hmake
    obtain ⟨leftO, againO, hlo⟩ := ho.limited hrefs h hs
    obtain ⟨leftI, againI, hli⟩ := hi.limited hrefs h hs
    exact Join.spent_of_next hlo hli h haccepts.outer_pos haccepts.inner_pos hfit hrun
  | aggregate hchild hagg =>
    obtain ⟨a, rfl, -⟩ := aggregate?_eq hagg
    obtain ⟨t, results⟩ := (state : Aggregate.State _)
    cases results with
    | none => cases hrun
    | some results =>
      obtain ⟨all, left⟩ := results
      cases left <;> cases hrun
      exact ⟨all, rfl⟩

end

end Plan

/-! ## 4. Plans beside a session -/

namespace Running

/-- A plan that was built over the tables of a database, beside a session that came of it. -/
structure Under (db₀ : Database) (p : Plan) (r : Running) : Prop where
  sound : Sound r.session.db
  settled : Settled r.session.db
  refs : ∀ id, r.session.db.ref? id = db₀.ref? id
  fit : ∃ state, r.query = ⟨p, state⟩ ∧ p.Fit state

section

variable {db₀ : Database} {p : Plan} {r : Running}

theorem Under.act (h : Under db₀ p r) {act : Act} (hmarked : act.Marked) :
    Under db₀ p (r.step (.act act)).2 := by
  obtain ⟨hsound, hsettled, hkept⟩ := Session.perform_kept h.sound h.settled hmarked
  exact ⟨hsound, hsettled, fun id => (hkept id).trans (h.refs id), h.fit⟩

theorem Under.call (h : Under db₀ p r) (call : Call) : Under db₀ p (r.step (.call call)).2 := by
  obtain ⟨s, query⟩ := r
  obtain ⟨state, hquery, hfit⟩ := h.fit
  obtain rfl : query = ⟨p, state⟩ := hquery
  have hkeeps := p.keeps.call h.sound hfit call
  have hstep := @step_call s p state _ _ call _ rfl
  obtain ⟨hq, hfit'⟩ := hkeeps
  rw [hstep]
  exact ⟨h.sound.quiets hq, (h.settled.quiets h.sound hq).1,
    fun id => (hq.steps.ref? id).trans (h.refs id), _, rfl, hfit'⟩

theorem Under.after (h : Under db₀ p r) {events : List Event}
    (hmarked : ∀ act, .act act ∈ events → act.Marked) : Under db₀ p (r.after events) := by
  induction events generalizing r with
  | nil => exact h
  | cons e events ih =>
    have hmarked' : ∀ act, .act act ∈ events → act.Marked := fun act hact =>
      hmarked act (List.mem_cons_of_mem _ hact)
    cases e with
    | act act => exact ih (h.act (hmarked act List.mem_cons_self)) hmarked'
    | call call => exact ih (h.call call) hmarked'

/-- The file of a table that is scanned is there. -/
theorem Under.isSome_file (h : Under db₀ p r) (hp : p.BuiltOver db₀) (table : TableRef)
    (schema : Schema) (hscan : p = .scan table schema) :
    (r.session.db.files[table.index]?).isSome := by
  cases hp with
  | listing hlist =>
    obtain ⟨rfl, -⟩ := Plan.listing?_eq hlist
    cases hscan
  | scan href hscan' =>
    obtain ⟨schema', rfl⟩ := Plan.scanOf_scan hscan'
    cases hscan
    obtain ⟨f, hf, -⟩ := h.sound.registered _ _ ((h.refs _).trans href)
    rw [hf]
    rfl
  | join ho hi hjoin =>
    obtain ⟨j, rfl, -⟩ := Plan.join?_eq hjoin
    cases hscan
  | aggregate hchild hagg =>
    obtain ⟨a, rfl, -⟩ := Plan.aggregate?_eq hagg
    cases hscan

/-- **An exhausted plan** stays so while rows are asked for.  By induction on the events. -/
theorem replies_of_exhausted (hp : p.BuiltOver db₀) {db : Database} {state : p.State}
    (hexhausted : p.Exhausted db state) (h : Under db₀ p r) (hquery : r.query = ⟨p, state⟩)
    (hadded : p.NoneAdded db r.session.db) {events : List Event} (hasks : ∀ e ∈ events, e.Asks)
    (hpages : ∀ db' ∈ r.moments events, p.NoneAdded db db') :
    r.replies events = (Event.calls events).map fun _ => .row none := by
  induction events generalizing r with
  | nil => rfl
  | cons e events ih =>
    obtain ⟨hask, hasks'⟩ := List.forall_mem_cons.mp hasks
    rw [moments] at hpages
    obtain ⟨hnow, hlater⟩ := List.forall_mem_cons.mp hpages
    cases e with
    | act act => exact ih (h.act hask) hquery hnow hasks' hlater
    | call call =>
      cases call with
      | next =>
        obtain ⟨s, query⟩ := r
        obtain rfl : query = ⟨p, state⟩ := hquery
        have hnext := Plan.next_of_exhausted hexhausted hadded (h.isSome_file hp)
        have hcall : p.stream.call state s.db .next = (.row none, (state, s.db)) := by
          rw [RowStream.call, hnext]
          rfl
        have hstep := step_call hcall
        have hunder := h.call .next
        rw [hstep] at hnow hlater hunder
        rw [replies, hstep, Event.calls]
        exact congrArg (List.cons _) (ih hunder rfl hnow hasks' hlater)
      | start => cases hask
      | rewind => cases hask
      | close => cases hask

end

/-- **No more rows.** Take tables that any openings have led to, each with a file of its own, any
session on them, and a plan that was built over them, of whatever nodes to whatever depth.  It may
have been called in any way, while the session went on and marked what it changed.  When it says
that there are no more rows, it says so again whenever it is asked, whatever else is done, until it
is started again, rewound or closed; but if it is a scan, then only as long as its table gets no
more pages. -/
theorem none_until_restarted {disk : Disk} {pageSize capacity : Nat} {db₀ : Database}
    (h₀ : Database.onDisk disk pageSize capacity = .ok db₀) (openings : List Opening)
    (hseparate : (db₀.openAll openings).Separate) {acts : List Act}
    (hmarked : ∀ act ∈ acts, act.Marked) {s : Session}
    (hs : s = (Session.start (db₀.openAll openings)).after acts) {p : Plan} (hp : p.BuiltOver s.db)
    {before : List Event} (hbefore : ∀ act, .act act ∈ before → act.Marked)
    (hnone : ((start s p).after before).replies [.call .next] = [.row none]) {r : Running}
    (hr : r = (start s p).after (before ++ [.call .next])) {events : List Event}
    (hasks : ∀ e ∈ events, e.Asks)
    (hpages : ∀ db ∈ r.moments events, p.NoneAdded r.session.db db) :
    r.replies events = (Event.calls events).map fun _ => .row none := by
  obtain ⟨hsound, hsettled⟩ := Session.sound_settled_after h₀ hseparate hmarked hs
  have hstart : Under s.db p (start s p) :=
    ⟨hsound, hsettled, fun _ => rfl, p.closed, rfl, p.fit_closed⟩
  have hunder := hstart.after hbefore
  rw [after_append] at hr
  generalize (start s p).after before = r₀ at hnone hr hunder
  obtain ⟨s₀, query⟩ := r₀
  obtain ⟨state, hquery, hfit⟩ := hunder.fit
  obtain rfl : query = ⟨p, state⟩ := hquery
  have hlast := hunder.call .next
  cases hnext : p.stream.next.run (state, s₀.db) with
  | error e st =>
    have hcall : p.stream.call state s₀.db .next = (.failed e, (st.1, st.2)) := by
      rw [RowStream.call, hnext]
      rfl
    rw [replies, step_call hcall] at hnone
    cases hnone
  | ok row st =>
    have hcall : p.stream.call state s₀.db .next = (.row row, (st.1, st.2)) := by
      rw [RowStream.call, hnext]
      rfl
    have hstep := step_call hcall
    rw [replies, hstep] at hnone
    obtain rfl : row = none := Reply.row.inj (List.cons.inj hnone).1
    rw [Running.after, hstep] at hr
    rw [hstep] at hlast
    have hexhausted : p.Exhausted r.session.db st.1 := by
      rw [hr]
      exact hp.exhausted_of_next hunder.refs hunder.sound hunder.settled hfit hnext
    rw [hr] at hexhausted hpages ⊢
    exact replies_of_exhausted hp hexhausted hlast rfl (Plan.noneAdded_refl _ p) hasks hpages

/-- A join whose outer stream is the scan of a table that gets another page, which it would have
paired. -/
theorem none_until_restarted_appended :
    ∃ (s : Session) (p : Plan) (before events : List Event) (eight : Row),
      p.BuiltOver s.db ∧
      events = [.act (.row eight), .act (.insert 0 0), .call .next, .call .next] ∧
      ((start s p).after before).replies [.call .next] = [.row none] ∧
      (((start s p).after (before ++ [.call .next])).after events).session.db.pagesIn ⟨0⟩ = 2 ∧
      ((start s p).after (before ++ [.call .next])).replies events = [.row none, .row none] := by
  let s := Session.start (Sample.opened 2)
  let eight : Row := ⟨Sample.schema, [.int 8], none, rfl⟩
  let table : Plan := .scan ⟨0⟩ Sample.schema
  let list : Plan := .listing Sample.schema [eight]
  let p : Plan := .join ⟨⟨0, .le, 0⟩, 1, 1⟩ table list
  let before : List Event := [.call .start, .call .next]
  let events : List Event := [.act (.row eight), .act (.insert 0 0), .call .next, .call .next]
  have h₀ : Database.onDisk Sample.disk 8 2 = .ok (Sample.database 2) := rfl
  have hs : s = (Session.start ((Sample.database 2).openAll [Sample.opening])).after [] := by
    rw [Sample.openAll_eq]
    rfl
  have href : s.db.ref? 0 = some ⟨0⟩ := by cbv
  have htable : (Plan.scanOf ⟨0⟩).run s.db = .ok table s.db := rfl
  have hlist : Plan.listing? Sample.schema [eight] = .ok list := by cbv
  have hjoin : Plan.join? ⟨0, .le, 0⟩ table list 4 = .ok p := by cbv
  have hp : p.BuiltOver s.db := .join (.scan href htable) (.listing hlist) hjoin
  have hnone : ((start s p).after before).replies [.call .next] = [.row none] := by cbv
  have hpages :
      (((start s p).after (before ++ [.call .next])).after events).session.db.pagesIn ⟨0⟩ = 2 := by
    cbv
  have hasks : ∀ e ∈ events, e.Asks := by simp [events, Event.Asks, Act.Marked]
  have hafter := none_until_restarted h₀ [Sample.opening] (Sample.ordinary 2).separate (by simp) hs
    hp (by simp [before]) hnone rfl hasks fun db hdb => trivial
  exact ⟨s, p, before, events, eight, hp, rfl, hnone, hpages, hafter⟩

/-- A scan says that there are no more rows.  Then a row is stored, for which the table gets a page,
and the scan hands it out. -/
theorem row_after_none :
    ∃ (s : Session) (p : Plan) (before events : List Event) (row : Row),
      p.BuiltOver s.db ∧ (∀ e ∈ events, e.Asks) ∧
      ((start s p).after before).replies [.call .next] = [.row none] ∧
      ((start s p).after (before ++ [.call .next])).replies events = [.row (some row)] := by
  let s := Session.start (Sample.opened 2)
  let eight : Row := ⟨Sample.schema, [.int 8], some ⟨⟨0, 1⟩, 0⟩, rfl⟩
  let p : Plan := .scan ⟨0⟩ Sample.schema
  let before : List Event := [.call .start, .call .next]
  let events : List Event := [.act (.row (eight.movedTo none)), .act (.insert 0 0), .call .next]
  have href : s.db.ref? 0 = some ⟨0⟩ := by cbv
  have htable : (Plan.scanOf ⟨0⟩).run s.db = .ok p s.db := rfl
  have hnone : ((start s p).after before).replies [.call .next] = [.row none] := by cbv
  have hrow : ((start s p).after (before ++ [.call .next])).replies events =
      [.row (some eight)] := by cbv
  exact ⟨s, p, before, events, eight, .scan href htable,
    by simp [events, Event.Asks, Act.Marked], hnone, hrow⟩

end Running
end RowStore
