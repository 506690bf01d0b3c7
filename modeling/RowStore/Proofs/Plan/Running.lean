/-
# Plans that run beside a session

While a plan is being run, the users of its database go on with their own work.  Calls on the plan's
stream and acts of the session are events, which come one after another in any order and may fail
(`Running.after`); what comes back of the calls is `Running.replies`.

As long as the acts only read, a plan is a cursor over its rows (`Running.replies_cases`): it was
built over the tables of a database at rest, and whatever is called in whatever order, it answers as
a cursor over one list would.  If an aggregate of the plan overflows, it never opens.
-/
import RowStore.Proofs.Plan.Rows

namespace RowStore

/-! ## 1. Events -/

inductive Event where
  /-- An act of the users of the database. -/
  | act (act : Act)
  /-- A call on the stream of the plan. -/
  | call (call : Call)

/-- The calls among the events. -/
def Event.calls : List Event → List Call
  | [] => []
  | .act _ :: events => calls events
  | .call c :: events => c :: calls events

namespace Query

/-- What comes back of a step of a plan. -/
def replied {α : Type} (reply : α → Reply) :
    Except Error α × Query × Database → Reply × Query × Database
  | (.ok a, rest) => (reply a, rest)
  | (.error e, rest) => (.failed e, rest)

/-- A call on the stream of the plan. -/
def call (q : Query) (db : Database) : Call → Reply × Query × Database
  | .start => replied (fun _ => .done) (q.start db)
  | .next => replied .row (q.next db)
  | .rewind => replied (fun _ => .done) (q.rewind db)
  | .close => (.done, q.close, db)

theorem replied_run {p : Plan} {α : Type} (reply : α → Reply)
    (step : RowStream p.State → StreamM p.State α) (state : p.State) (db : Database) :
    replied reply ((⟨p, state⟩ : Query).run step db) =
      match RowStream.replied reply ((step p.stream).run (state, db)) with
      | (r, state, db) => (r, ⟨p, state⟩, db) := by
  unfold run
  rw [EStateM.run]
  cases step p.stream (state, db) <;> rfl

/-- A call on a plan is a call on its stream. -/
theorem call_eq (p : Plan) (state : p.State) (db : Database) (call : Call) :
    (⟨p, state⟩ : Query).call db call =
      match p.stream.call state db call with
      | (r, state, db) => (r, ⟨p, state⟩, db) := by
  cases call with
  | start => exact replied_run (fun _ => .done) (·.start) state db
  | next => exact replied_run .row (·.next) state db
  | rewind => exact replied_run (fun _ => .done) (·.rewind) state db
  | close => rfl

end Query

/-- A session and a plan that is being run over its database. -/
structure Running where
  session : Session
  query : Query

namespace Running

/-- The reply that an event brings, if any, and what is there behind it. -/
def step (r : Running) : Event → Option Reply × Running
  | .act act => (none, { r with session := endState ((Session.perform act).run r.session) })
  | .call call =>
    let (reply, query, db) := r.query.call r.session.db call
    (some reply, ⟨{ r.session with db }, query⟩)

def after (r : Running) : List Event → Running
  | [] => r
  | e :: events => (r.step e).2.after events

/-- What comes back of the calls among the events. -/
def replies (r : Running) : List Event → List Reply
  | [] => []
  | e :: events => (r.step e).1.toList ++ (r.step e).2.replies events

/-- A plan that has not been started, beside a session. -/
def start (s : Session) (p : Plan) : Running := ⟨s, .ofPlan p⟩

theorem replies_append (r : Running) (events events' : List Event) :
    r.replies (events ++ events') = r.replies events ++ (r.after events).replies events' := by
  induction events generalizing r with
  | nil => rfl
  | cons e events ih =>
    rw [List.cons_append, replies, replies, after, ih, List.append_assoc]

theorem after_append (r : Running) (events events' : List Event) :
    r.after (events ++ events') = (r.after events).after events' := by
  induction events generalizing r with
  | nil => rfl
  | cons e events ih => exact ih _

/-- What a call does, seen from the stream of the plan. -/
theorem step_call {s : Session} {p : Plan} {state state' : p.State} {db' : Database} {call : Call}
    {reply : Reply} (h : p.stream.call state s.db call = (reply, (state', db'))) :
    (Running.mk s ⟨p, state⟩).step (.call call) =
      (some reply, ⟨{ s with db := db' }, ⟨p, state'⟩⟩) := by
  unfold step
  simp only [Query.call_eq, h]

end Running

/-! ## 2. Acts that only read -/

/-- The act changes no table, and no page is held behind it. -/
def Act.Reads : Act → Prop
  | .row _ | .flush _ | .flushAll | .scan _ => True
  | _ => False

/-- What a session comes to by an operation of its database that succeeds. -/
theorem Session.endState_onDatabase {α : Type} {x : DbM α} {s : Session} {a : α} {db' : Database}
    (h : x.run s.db = .ok a db') :
    endState ((do let _ ← onDatabase x : EStateM Error Session Unit).run s) =
      { s with db := db' } := by
  simp only [EStateM.run_bind, onDatabase_run, h]
  rfl

/-- **Reading** leaves the tables as they are. -/
theorem Database.Still.perform {db : Database} {s : Session} (h : db.Still s.db) {act : Act}
    (hact : act.Reads) : db.Still (endState ((Session.perform act).run s)).db := by
  obtain ⟨hm, hidle⟩ := h
  cases act with
  | row row => exact ⟨hm, hidle⟩
  | flush page =>
    obtain ⟨cached, db', hrun, hm', hk⟩ := hm.flushPage page
    rw [Session.perform, Session.endState_onDatabase hrun]
    exact ⟨hm', hidle.kept hk⟩
  | flushAll =>
    obtain ⟨db', hrun, hm', hk⟩ := hm.flushAll
    rw [Session.perform, Session.endState_onDatabase hrun]
    exact ⟨hm', hidle.kept hk⟩
  | scan table =>
    cases hs : db.said table with
    | some shelf =>
      obtain ⟨db', hrun, hm', hidle'⟩ := hm.scanTable hidle hs
      rw [Session.perform, Session.endState_onDatabase hrun]
      exact ⟨hm', hidle'⟩
    | none =>
      have hrun : (Database.scanTable table).run s.db = .error (.noSuchTable table) s.db := by
        simp only [Database.scanTable, EStateM.run_bind, hm.tableOf_none hs]
      simp only [Session.perform, EStateM.run_bind, Session.onDatabase_run, hrun]
      exact ⟨hm, hidle⟩
  | get page => cases hact
  | letGo handle => cases hact
  | insert table row => cases hact
  | delete row => cases hact
  | discard page => cases hact
  | append table => cases hact
  | edit handle ops => cases hact
  | room path full => cases hact

/-- A database at rest stays so. -/
theorem Database.AtRest.perform {s : Session} (h : s.db.AtRest) {act : Act} (hact : act.Reads) :
    (endState ((Session.perform act).run s)).db.AtRest := by
  have hm := Session.perform_moved h.sound act
  have hstill : s.db.Still s.db := ⟨h.mirrors, h.idle⟩
  have hkind : act.Marked ∧ act.KeepsRoom := by
    cases act <;> first | exact ⟨trivial, trivial⟩ | cases hact
  exact ⟨hm.sound h.sound, hm.settled h.sound hkind.1 h.settled,
    hm.ordinary h.sound hkind.2 h.ordinary, (hstill.perform hact).2⟩

/-! ## 3. Plans as cursors -/

namespace Running

variable {db : Database} {p : Plan} {s : Session} {state : p.State}

/-- **A plan that replays its rows** answers calls as a cursor does, from wherever the cursor
stands.  By induction on the events. -/
theorem replies_of_replays {rows : List Row} {At : p.State → List Row → Prop}
    (h : p.stream.Replays db.Still rows At) {left : Option (List Row)} (hstill : db.Still s.db)
    (hfollows : RowStream.Follows p.Shut At state left) {events : List Event}
    (hreads : ∀ act, .act act ∈ events → act.Reads) :
    (Running.mk s ⟨p, state⟩).replies events =
      Cursor.replies rows left (Event.calls events) := by
  induction events generalizing s state left with
  | nil => rfl
  | cons e events ih =>
    have hreads' : ∀ act, .act act ∈ events → act.Reads := fun act hact =>
      hreads act (List.mem_cons_of_mem _ hact)
    cases e with
    | act act =>
      have hact := hstill.perform (hreads act List.mem_cons_self)
      exact ih hact hfollows hreads'
    | call call =>
      obtain ⟨state', db', hcall, hstill', hfollows'⟩ := h.call p.shuts hstill hfollows call
      have hrest := @ih { s with db := db' } state' _ hstill' hfollows' hreads'
      rw [replies, step_call hcall, Event.calls]
      exact congrArg (List.cons _) hrest

/-- **A plan that overflows** never opens. -/
theorem replies_of_fails {e : Error} (h : p.stream.Fails db.Still p.Shut e)
    (hstill : db.Still s.db) (hshut : p.Shut state) {events : List Event}
    (hreads : ∀ act, .act act ∈ events → act.Reads) :
    (Running.mk s ⟨p, state⟩).replies events =
      (Event.calls events).map (Call.refused e) := by
  induction events generalizing s state with
  | nil => rfl
  | cons event events ih =>
    have hreads' : ∀ act, .act act ∈ events → act.Reads := fun act hact =>
      hreads act (List.mem_cons_of_mem _ hact)
    cases event with
    | act act =>
      have hact := hstill.perform (hreads act List.mem_cons_self)
      exact ih hact hshut hreads'
    | call call =>
      obtain ⟨state', db', hcall, hstill', hshut'⟩ := h.call p.shuts hstill hshut call
      have hrest := @ih { s with db := db' } state' hstill' hshut' hreads'
      rw [replies, step_call hcall, Event.calls]
      exact congrArg (List.cons _) hrest

/-- **A plan is a cursor over a list.** Take a database at rest, and a plan that was built over its
tables, of whatever nodes to whatever depth.  Either none of its aggregates overflows, and there is
one list such that calls in any order, between any acts that only read, are answered as a cursor
over the list answers them; or some aggregate overflows, and then every start fails with the
overflow and nothing else opens the plan. -/
theorem replies_cases (hrest : s.db.AtRest) (hp : p.BuiltOver s.db) :
    (¬ p.Overflows s.db ∧ ∃ rows, p.rows s.db = .ok rows ∧
      ∀ events, (∀ act, .act act ∈ events → act.Reads) →
        (start s p).replies events = Cursor.replies rows none (Event.calls events)) ∨
    (p.Overflows s.db ∧ ∃ f n, p.rows s.db = .error (.overflow f n) ∧
      ∀ events, (∀ act, .act act ∈ events → act.Reads) →
        (start s p).replies events =
          (Event.calls events).map (Call.refused (.overflow f n))) := by
  have hstill : s.db.Still s.db := ⟨hrest.mirrors, hrest.idle⟩
  cases hp.outcome hrest with
  | @replays rows At hrows hover h =>
    have hfollows : RowStream.Follows p.Shut At p.closed none := p.shut_closed
    left
    refine ⟨hover, rows, hrows, ?_⟩
    intro events hreads
    exact replies_of_replays h hstill hfollows hreads
  | @fails f n hrows hover h =>
    right
    refine ⟨hover, f, n, hrows, ?_⟩
    intro events hreads
    exact replies_of_fails h hstill p.shut_closed hreads

/-- The sum over a join of a table with a list.  It comes out once for each start, also behind a
flush, and is not there once the plan has been closed. -/
theorem replies_cases_nested :
    ∃ (s : Session) (p : Plan) (row : Row), s.db.AtRest ∧ p.BuiltOver s.db ∧
      row.values = [.int 15] ∧
      (start s p).replies [.call .next, .call .start, .call .next, .act .flushAll, .call .next,
          .call .start, .call .next, .call .close, .call .next] =
        [.failed .notOpen, .done, .row (some row), .row none, .done, .row (some row), .done,
          .failed .notOpen] := by
  let s := Session.start (Sample.opened 1)
  let seven : Row := ⟨Sample.schema, [.int 7], none, rfl⟩
  let eight : Row := ⟨Sample.schema, [.int 8], none, rfl⟩
  let table : Plan := .scan ⟨0⟩ Sample.schema
  let list : Plan := .listing Sample.schema [eight, seven]
  let pairs : Plan := .join ⟨⟨0, .le, 0⟩, 1, 1⟩ table list
  let p : Plan := .aggregate ⟨1, none, .sum, ⟨[⟨"n", .int⟩]⟩⟩ pairs
  let row : Row := ⟨⟨[⟨"n", .int⟩]⟩, [.int 15], none, by decide⟩
  have hrest : s.db.AtRest := Sample.atRest Nat.one_pos
  have href : s.db.ref? 0 = some ⟨0⟩ := by cbv
  have htable : (Plan.scanOf ⟨0⟩).run s.db = .ok table s.db := rfl
  have hlist : Plan.listing? Sample.schema [eight, seven] = .ok list := by cbv
  have hpairs : Plan.join? ⟨0, .le, 0⟩ table list 4 = .ok pairs := by cbv
  have hsum : Plan.aggregate? pairs 1 none .sum = .ok p := by cbv
  have hp : p.BuiltOver s.db :=
    .aggregate (.join (.scan href htable) (.listing hlist) hpairs) hsum
  have hrows : p.rows s.db = .ok [row] := by cbv
  refine ⟨s, p, row, hrest, hp, rfl, ?_⟩
  rcases replies_cases hrest hp with ⟨-, rows, hrows', hreplies⟩ | ⟨-, f, n, hover, -⟩
  · obtain rfl : [row] = rows := Except.ok.inj (hrows.symm.trans hrows')
    exact hreplies _ (by simp [Act.Reads])
  · exact absurd (hrows.symm.trans hover) (by simp)

end Running
end RowStore
