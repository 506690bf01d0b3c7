/-
# Every row conforms to its schema

A database is in use when its users have opened tables, act on it and run plans beside each other,
in any order (`InUse`).  Acts and calls may fail; pages may be changed through handles in any way
that pages can be; pools may be replaced; and what is in the files may change at any time and need
not be pages at all.  A plan calls its parts while it is called itself, so calls on the parts are
among what can happen.

Then a row that is stored on a page has the schema of its table, and a row that a plan yields, or
any part of a plan, has the schema of that part (`InUse.conforms`).  The rows of a schema have one
value of the right kind for each column, so they can be written, and what a join compares is of one
kind.

One call or act keeps what is needed for this (`InUse.typed`): the database is typed, and the state
of every plan that is being run holds rows of the plan's schemas only (`Plan.Typed`).
-/
import RowStore.Proofs.Plan.Running
import RowStore.Proofs.Stream.Acting

namespace RowStore

namespace Plan

/-! ## 1. Plans over a database -/

/-- The nodes of the plan are in order: its lists hold rows of their schemas, its scans are those of
tables of the catalog, and its joins can be merged. -/
def Rooted (db : Database) : Plan → Prop
  | listing schema rows => Of schema rows
  | scan ref schema => ∃ id layout, db.ref? id = some ref ∧ db.layout? id = some layout ∧
      schema = layout.schema
  | join j o i => j.Accepts o.schema i.schema ∧ o.Rooted db ∧ i.Rooted db
  | aggregate _ child => child.Rooted db

/-- More tables do no harm. -/
theorem Rooted.mono {db db' : Database} (hadds : db.Adds db') {p : Plan} (h : p.Rooted db) :
    p.Rooted db' := by
  induction p with
  | listing schema rows => exact h
  | scan ref schema =>
    obtain ⟨id, layout, href, hlayout, hschema⟩ := h
    exact ⟨id, layout, hadds.ref? id ref href, hadds.layout? id layout hlayout, hschema⟩
  | join j o i iho ihi => exact ⟨h.1, iho h.2.1, ihi h.2.2⟩
  | aggregate a child ih => exact ih h

/-- **A plan that could be built** is in order. -/
theorem BuiltOver.rooted {db : Database} (hdb : db.Registered) {p : Plan} (hp : p.BuiltOver db) :
    p.Rooted db := by
  induction hp with
  | listing h =>
    obtain ⟨rfl, hrows⟩ := listing?_eq h
    exact hrows
  | @scan id ref p db' href h =>
    obtain ⟨f, hf, -⟩ := hdb id ref href
    have hfile : (Database.file ref).run db = .ok f db := by
      simp only [Database.file, EStateM.run_bind, EStateM.run_get, hf]
      rfl
    simp only [scanOf, EStateM.run_bind, hfile, EStateM.run_pure] at h
    cases h
    refine ⟨id, f.layout, href, ?_, rfl⟩
    rw [Database.layout?, Database.table?_of_ref href, hf, Option.map_some]
  | join ho hi h iho ihi =>
    obtain ⟨j, rfl, hmake⟩ := join?_eq h
    exact ⟨(Join.make_accepts hmake).2, iho, ihi⟩
  | aggregate hchild h ih =>
    obtain ⟨a, rfl, -⟩ := aggregate?_eq h
    exact ih

/-! ## 2. Plans that are being run -/

/-- The rows in the state of the plan have the schemas of their parts. -/
def Typed : (p : Plan) → p.State → Prop
  | listing schema _, s => Of schema ((s : Listing.State).getD [])
  | scan _ schema, s => Scan.Fit schema s
  | join _ o i, s => Join.Typed o.schema i.schema o.Typed i.Typed s
  | aggregate a child, s => a.Typed child.Typed s

theorem typed_closed (p : Plan) : p.Typed p.closed := by
  induction p with
  | listing schema rows => exact .nil _
  | scan ref schema =>
    rintro cursor ⟨⟩
  | join j o i iho ihi =>
    refine ⟨iho, ihi, ?_⟩
    rintro run ⟨⟩
  | aggregate a child ih =>
    refine ⟨ih, ?_⟩
    rintro results ⟨⟩

/-- **The stream of a plan** yields rows of the plan's schema.  By induction on the plan. -/
theorem yields {db₀ : Database} {p : Plan} (h : p.Rooted db₀) :
    p.stream.Yields p.Typed db₀.Stays := by
  induction p with
  | listing schema rows => exact Listing.yields h
  | scan ref schema =>
    obtain ⟨id, layout, href, hlayout, rfl⟩ := h
    exact Scan.yields href hlayout
  | join j o i iho ihi =>
    have hjoin : (Join.stream j o.stream i.stream).Yields _ _ :=
      Join.yields (iho h.2.1) (ihi h.2.2)
    rw [schema_stream o, schema_stream i] at hjoin
    exact hjoin
  | aggregate a child ih => exact Aggregate.yields (ih h)

end Plan

/-! ## 3. Parts of a plan -/

/-- With the one part in place of the other, the first query is the second one. -/
inductive Query.Changes (part part' : Query) : Query → Query → Prop
  | whole : Changes part part' part part'
  | outer {j : Join} {o i : Plan} {s : Join.State o.State i.State} {outer : o.State}
      (h : Changes part part' ⟨o, s.outer⟩ ⟨o, outer⟩) :
      Changes part part' ⟨.join j o i, s⟩ ⟨.join j o i, { s with outer }⟩
  | inner {j : Join} {o i : Plan} {s : Join.State o.State i.State} {inner : i.State}
      (h : Changes part part' ⟨i, s.inner⟩ ⟨i, inner⟩) :
      Changes part part' ⟨.join j o i, s⟩ ⟨.join j o i, { s with inner }⟩
  | child {a : Aggregate} {c : Plan} {s : Aggregate.State c.State} {child : c.State}
      (h : Changes part part' ⟨c, s.child⟩ ⟨c, child⟩) :
      Changes part part' ⟨.aggregate a c, s⟩ ⟨.aggregate a c, { s with child }⟩

/-- The part, in the state that it has in the query. -/
def Query.Part (q part : Query) : Prop := Changes part part q q

/-- The plan is in order over the database, and its state is. -/
structure Query.Fine (db : Database) (q : Query) : Prop where
  rooted : q.plan.Rooted db
  typed : q.plan.Typed q.state

namespace Query.Fine

variable {db db' : Database} {q q' part part' : Query}

theorem mono (h : q.Fine db) (hadds : db.Adds db') : q.Fine db' := ⟨h.rooted.mono hadds, h.typed⟩

/-- The parts of a plan that is in order are so. -/
theorem of_changes (h : q.Fine db) (hchanges : Query.Changes part part' q q') : part.Fine db := by
  induction hchanges with
  | whole => exact h
  | outer _ ih => exact ih ⟨h.rooted.2.1, h.typed.1⟩
  | inner _ ih => exact ih ⟨h.rooted.2.2, h.typed.2.1⟩
  | child _ ih => exact ih ⟨h.rooted, h.typed.1⟩

/-- A part may be changed as long as it stays in order. -/
theorem changes (h : q.Fine db) (hchanges : Query.Changes part part' q q') (hadds : db.Adds db')
    (hpart : part'.Fine db') : q'.Fine db' := by
  have hrooted := h.rooted.mono hadds
  induction hchanges with
  | whole => exact hpart
  | outer _ ih =>
    have houter := ih ⟨h.rooted.2.1, h.typed.1⟩ hrooted.2.1
    exact ⟨hrooted, houter.typed, h.typed.2⟩
  | inner _ ih =>
    have hinner := ih ⟨h.rooted.2.2, h.typed.2.1⟩ hrooted.2.2
    exact ⟨hrooted, h.typed.1, hinner.typed, h.typed.2.2⟩
  | child _ ih =>
    have hchild := ih ⟨h.rooted, h.typed.1⟩ hrooted
    exact ⟨hrooted, hchild.typed, h.typed.2⟩

/-- **A call on a plan** keeps the plan in order and the database typed, and what it brings is a row
of the plan. -/
theorem call (h : q.Fine db) (hdb : db.Typed) (call : Call) :
    db.Stays (q.call db call).2.2 ∧ (q.call db call).2.1.Fine (q.call db call).2.2 ∧
      ∀ row, (q.call db call).1 = .row (some row) → row.schema = q.plan.schema := by
  obtain ⟨p, state⟩ := q
  have hstays : db.Stays db := ⟨.refl db, hdb⟩
  obtain ⟨⟨hfit, hstays'⟩, hrow⟩ := (Plan.yields h.rooted).call h.typed hstays call
  rw [Plan.schema_stream] at hrow
  rw [Query.call_eq]
  exact ⟨hstays', ⟨h.rooted.mono hstays'.same.adds, hfit⟩, hrow⟩

end Query.Fine

/-! ## 4. Databases in use -/

/-- The users of a database and the plans that are being run over it, as they can come to be. -/
inductive InUse : Session → List Query → Prop
  | start {disk : Disk} {pageSize capacity : Nat} {db : Database}
      (h : Database.onDisk disk pageSize capacity = .ok db) : InUse (.start db) []
  /-- A table is opened, or cannot be. -/
  | opened {s : Session} {queries : List Query} (h : InUse s queries) (o : Opening) :
      InUse { s with db := s.db.openAll [o] } queries
  /-- Someone acts. -/
  | act {s : Session} {queries : List Query} (h : InUse s queries) (act : Act) :
      InUse (endState ((Session.perform act).run s)) queries
  /-- A plan is built over the tables that there are. -/
  | planned {s : Session} {queries : List Query} (h : InUse s queries) {p : Plan}
      (hp : p.BuiltOver s.db) : InUse s (.ofPlan p :: queries)
  /-- One of the plans is called, or a part of one, as plans call their parts. -/
  | called {s : Session} {before behind : List Query} {q q' part : Query}
      (h : InUse s (before ++ q :: behind)) (call : Call)
      (hchanges : Query.Changes part (part.call s.db call).2.1 q q') :
      InUse { s with db := (part.call s.db call).2.2 } (before ++ q' :: behind)
  /-- The pool is replaced by an empty one. -/
  | repooled {s : Session} {queries : List Query} (h : InUse s queries) (capacity : Nat) :
      InUse { s with db := endState ((Database.replacePool capacity).run s.db) } queries
  /-- The files change by other hands. -/
  | meddled {s : Session} {queries : List Query} (h : InUse s queries) (disk : Disk) :
      InUse { s with db := { s.db with disk } } queries

theorem Upholds.stays {α : Type} {Post : α → Prop} {x : DbM α} {db : Database}
    (hx : Upholds db.Stays Post x) (hdb : db.Typed) : db.Stays (endState (x.run db)) := by
  have hend := hx db ⟨.refl db, hdb⟩
  generalize x.run db = r at hend
  cases r with
  | error e db' => exact hend
  | ok a db' => exact hend.1

/-- **One step after the other**, the database stays typed and the plans in order.  By induction on
how they came to be. -/
theorem InUse.typed {s : Session} {queries : List Query} (h : InUse s queries) :
    s.db.Typed ∧ ∀ q ∈ queries, q.Fine s.db := by
  -- steps that leave the plans alone
  have hkeep : ∀ {db db' : Database} {queries : List Query}, db.Stays db' →
      (∀ q ∈ queries, q.Fine db) → db'.Typed ∧ ∀ q ∈ queries, q.Fine db' :=
    fun hstays hqueries => ⟨hstays.typed, fun q hq => (hqueries q hq).mono hstays.same.adds⟩
  induction h with
  | start h =>
    refine ⟨Database.typed_onDisk h, ?_⟩
    intro q hq
    cases hq
  | opened h o ih =>
    obtain ⟨htyped, hadds⟩ := ih.1.opened o
    exact ⟨htyped, fun q hq => (ih.2 q hq).mono hadds⟩
  | @act s queries h act ih =>
    have hend := @Session.perform_upholds s.db act s ⟨.refl s.db, ih.1⟩
    have hstays : s.db.Stays (endState ((Session.perform act).run s)).db := by
      generalize (Session.perform act).run s = r at hend
      cases r with
      | error e s' => exact hend
      | ok _ s' => exact hend.1
    exact hkeep hstays ih.2
  | @planned s queries h p hp ih =>
    refine ⟨ih.1, ?_⟩
    rintro q (_ | ⟨_, hq⟩)
    · exact ⟨hp.rooted ih.1.registered, p.typed_closed⟩
    · exact ih.2 q hq
  | @called s before behind q q' part h call hchanges ih =>
    have hq : q.Fine s.db := ih.2 q (List.mem_append_right _ List.mem_cons_self)
    obtain ⟨hstays, hfine, -⟩ := (hq.of_changes hchanges).call ih.1 call
    refine ⟨hstays.typed, ?_⟩
    intro other hother
    have hold : other ∈ before ++ q :: behind → other.Fine (part.call s.db call).2.2 :=
      fun hmem => (ih.2 other hmem).mono hstays.same.adds
    rcases List.mem_append.mp hother with hbefore | hrest
    · exact hold (List.mem_append_left _ hbefore)
    · rcases List.mem_cons.mp hrest with rfl | hbehind
      · exact hq.changes hchanges hstays.same.adds hfine
      · exact hold (List.mem_append_right _ (List.mem_cons_of_mem q hbehind))
  | repooled h capacity ih =>
    exact hkeep ((Database.replacePool_upholds capacity).stays ih.1) ih.2
  | meddled h disk ih =>
    exact hkeep (Database.Stays.withDisk ⟨.refl _, ih.1⟩ disk) ih.2

/-! ## 5. Rows in use -/

/-- **Every row conforms to its schema.**  On any page that there can be, stored rows are rows of
the page's layout; in a database in use, the pages in the cache and beside it are laid out as their
tables say; and whatever plans are being run over it, each part of a plan yields rows of its own
schema.  Rows of a schema can be stored under it.  What a join has at hand are rows of its outer
side, and rows of its two sides have values in its fields that compare. -/
theorem InUse.conforms {s : Session} {queries : List Query} (h : InUse s queries) :
    (∀ id layout page, Page.Reachable id layout page → ∀ slot row, page.row? slot = some row →
      row.Conforms layout.schema) ∧
    (∀ id frame, s.db.pool.cache.peek? id = some frame ∨
        frame ∈ s.db.pool.detached ∧ frame.page.id = id →
      s.db.layout? id.table = some frame.page.layout ∧ ∀ slot row,
        frame.page.row? slot = some row → row.Conforms frame.page.layout.schema) ∧
    ∀ q ∈ queries, ∀ part, q.Part part →
      (∀ row, (part.call s.db .next).1 = .row (some row) → row.Conforms part.plan.schema) ∧
      ∀ (j : Join) (o i : Plan) (state : Join.State o.State i.State), part = ⟨.join j o i, state⟩ →
        (∀ run, state.run = some run → ∀ row ∈ run.outerBlock, row.Conforms o.schema) ∧
        ∀ l l' r r' : Row, l.Conforms o.schema → l'.Conforms o.schema → r.Conforms i.schema →
          r'.Conforms i.schema →
            l.Comparable j.condition.left l' j.condition.left ∧
              r.Comparable j.condition.right r' j.condition.right ∧
                l.Comparable j.condition.left r j.condition.right := by
  obtain ⟨hdb, hqueries⟩ := h.typed
  refine ⟨?_, ?_, ?_⟩
  · intro id layout page hpage slot row hrow
    obtain ⟨hv, -, rfl⟩ := hpage.valid
    exact Row.conforms_of_eq (hv.schema_eq hrow)
  · intro id frame hframe
    have hsuits : frame.page.Suits s.db id := by
      rcases hframe with hcached | ⟨hdetached, rfl⟩
      · exact hdb.cached id frame hcached
      · exact hdb.detached frame hdetached
    exact ⟨hsuits.layout, fun slot row hrow => Row.conforms_of_eq (hsuits.row_schema hrow)⟩
  · intro q hq part hpart
    have hfine := (hqueries q hq).of_changes hpart
    constructor
    · intro row hrow
      exact Row.conforms_of_eq ((hfine.call hdb .next).2.2 row hrow)
    · rintro j o i state rfl
      constructor
      · intro run hrun row hrow
        exact Row.conforms_of_eq ((hfine.typed.2.2 run hrun).block row hrow)
      · intro l l' r r' hl hl' hr hr'
        exact hfine.rooted.1.comparable hl.schema_eq hl'.schema_eq hr.schema_eq hr'.schema_eq

/-- A join of a table with a list, which has been started: both the join and its table yield a
row. -/
theorem InUse.conforms_started :
    ∃ (s : Session) (q part : Query) (item pair : Row), InUse s [q] ∧ q.Part part ∧
      (part.call s.db .next).1 = .row (some item) ∧ item.Conforms part.plan.schema ∧
      (q.call s.db .next).1 = .row (some pair) ∧ pair.values = [.int 7, .int 8] ∧
      pair.Conforms q.plan.schema := by
  let s := Session.start (Sample.opened 1)
  let seven : Row := ⟨Sample.schema, [.int 7], some ⟨⟨0, 0⟩, 0⟩, rfl⟩
  let eight : Row := ⟨Sample.schema, [.int 8], none, rfl⟩
  let table : Plan := .scan ⟨0⟩ Sample.schema
  let list : Plan := .listing Sample.schema [eight]
  let p : Plan := .join ⟨⟨0, .le, 0⟩, 1, 1⟩ table list
  let pair : Row := ⟨Sample.schema ++ Sample.schema, [.int 7, .int 8], none, by decide⟩
  let part : Query := ⟨table, (some ⟨0, []⟩ : Scan.State)⟩
  let q : Query :=
    ⟨p, (⟨some ⟨0, []⟩, some [eight], some {}⟩ : Join.State Scan.State Listing.State)⟩
  have href : s.db.ref? 0 = some ⟨0⟩ := by cbv
  have htable : (Plan.scanOf ⟨0⟩).run s.db = .ok table s.db := rfl
  have hlist : Plan.listing? Sample.schema [eight] = .ok list := by cbv
  have hpairs : Plan.join? ⟨0, .le, 0⟩ table list 4 = .ok p := by cbv
  have hopened : InUse s [] := by
    have hstart : Database.onDisk Sample.disk 8 1 = .ok (Sample.database 1) := rfl
    have h := (InUse.start hstart).opened Sample.opening
    rwa [Session.start, Sample.openAll_eq] at h
  have hplanned : InUse s [.ofPlan p] :=
    hopened.planned (.join (.scan href htable) (.listing hlist) hpairs)
  have h : InUse s [q] := @InUse.called s [] [] (.ofPlan p) q (.ofPlan p) hplanned .start .whole
  have hpart : q.Part part := .outer .whole
  have hitem : (part.call s.db .next).1 = .row (some seven) := by cbv
  have hpair : (q.call s.db .next).1 = .row (some pair) := by cbv
  have hconforms := h.conforms.2.2 q List.mem_cons_self
  refine ⟨s, q, part, seven, pair, h, hpart, hitem, ?_, hpair, rfl, ?_⟩
  · exact (hconforms part hpart).1 seven hitem
  · exact (hconforms q .whole).1 pair hpair

end RowStore
