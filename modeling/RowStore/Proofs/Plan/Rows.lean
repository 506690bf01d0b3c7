/-
# What a plan comes to

A plan that could be built over the tables of a database comes to a list of rows, or one of its
aggregates overflows.  Both are said here without any stream: `Plan.rows` works the rows out from
the lists and the tables at the leaves, node by node, and `Plan.Overflows` says that an aggregate
somewhere in the plan does not have its rows.

`BuiltOver.outcome` ties them to the stream of the plan, by induction on how the plan was built.  As
long as the tables stay as they are and nobody holds a page, the stream replays the rows; or else it
fails with the overflow whenever it is started.
-/
import RowStore.Plan
import RowStore.Proofs.Database.AtRest
import RowStore.Proofs.Stream.Calls

namespace RowStore

/-! ## 1. The rows of a plan -/

/-- The rows of the table in a file. -/
def Database.rowsIn (db : Database) (ref : TableRef) : List Row :=
  match db.files[ref.index]? with
  | none => []
  | some f => db.tableRows f.id

/-- The tables are as they are in the first database, and nobody holds a page. -/
def Database.Still (db db' : Database) : Prop := Mirrors db' db.said ∧ Idle db'

namespace Plan

/-- The rows that the plan works out; the overflow of an aggregate is the plan's. -/
def rows (db : Database) : Plan → Except Error (List Row)
  | listing _ rows => .ok rows
  | scan table _ => .ok (db.rowsIn table)
  | join settings outer inner => do
    let os ← outer.rows db
    let is ← inner.rows db
    return settings.rows os is
  | aggregate settings child => do
    settings.rows (← child.rows db)

/-- Some aggregate of the plan overflows. -/
inductive Overflows (db : Database) : Plan → Prop
  | here {a : Aggregate} {child : Plan} {below : List Row} {n : Int}
      (hbelow : child.rows db = .ok below) (h : a.rows below = .error (.overflow a.summary n)) :
      Overflows db (aggregate a child)
  | child {a : Aggregate} {child : Plan} (h : Overflows db child) : Overflows db (aggregate a child)
  | outer {j : Join} {o i : Plan} (h : Overflows db o) : Overflows db (join j o i)
  | inner {j : Join} {o i : Plan} (h : Overflows db i) : Overflows db (join j o i)

/-- The plan was built over tables of the database, by constructors that check what they are asked
for. -/
inductive BuiltOver (db : Database) : Plan → Prop
  | listing {schema : Schema} {rows : List Row} {p : Plan} (h : listing? schema rows = .ok p) :
      BuiltOver db p
  | scan {id : TableId} {ref : TableRef} {p : Plan} {db' : Database} (href : db.ref? id = some ref)
      (h : (scanOf ref).run db = .ok p db') : BuiltOver db p
  | join {condition : JoinCondition} {o i p : Plan} {budget : Nat} (ho : BuiltOver db o)
      (hi : BuiltOver db i) (h : join? condition o i budget = .ok p) : BuiltOver db p
  | aggregate {child p : Plan} {field : Nat} {group : Option Nat} {summary : Summary}
      (hchild : BuiltOver db child) (h : aggregate? child field group summary = .ok p) :
      BuiltOver db p

/-! ## 2. Plans that could be built -/

theorem schema_stream (p : Plan) : p.stream.schema = p.schema := by
  induction p with
  | listing schema rows => rfl
  | scan table schema => rfl
  | join settings o i iho ihi =>
    change o.stream.schema ++ i.stream.schema = o.schema ++ i.schema
    rw [iho, ihi]
  | aggregate settings child ih => rfl

theorem listing?_eq {schema : Schema} {rows : List Row} {p : Plan}
    (h : listing? schema rows = .ok p) :
    p = listing schema rows ∧ ∀ row ∈ rows, row.schema = schema := by
  obtain ⟨_, hcheck, h⟩ := exists_of_bind_ok h
  cases h
  constructor
  · rfl
  · intro row hrow
    unfold Listing.check at hcheck
    split at hcheck
    · cases hcheck
    · rename_i hnone
      have hfits := List.find?_eq_none.mp hnone row hrow
      simpa using hfits

theorem join?_eq {condition : JoinCondition} {o i p : Plan} {budget : Nat}
    (h : join? condition o i budget = .ok p) :
    ∃ j, p = join j o i ∧ Join.make condition o.schema i.schema budget = .ok j := by
  obtain ⟨j, hj, h⟩ := exists_of_bind_ok h
  cases h
  exact ⟨j, rfl, hj⟩

theorem aggregate?_eq {child p : Plan} {field : Nat} {group : Option Nat} {summary : Summary}
    (h : aggregate? child field group summary = .ok p) :
    ∃ a, p = aggregate a child ∧ Aggregate.make child.schema field group summary = .ok a := by
  obtain ⟨a, ha, h⟩ := exists_of_bind_ok h
  cases h
  exact ⟨a, rfl, ha⟩

/-- The scan of a table of a database at rest is that of its shelf. -/
theorem scanOf_eq {db db' : Database} (hrest : db.AtRest) {id : TableId} {ref : TableRef} {p : Plan}
    (href : db.ref? id = some ref) (h : (scanOf ref).run db = .ok p db') :
    ∃ s, db.said id = some s ∧ p = scan s.ref s.layout.schema ∧
      db.rowsIn s.ref = db.tableRows id := by
  obtain ⟨s, hs, rfl⟩ := hrest.exists_said href
  obtain ⟨f, hfile, hf, hd⟩ := hrest.stands.file hs
  simp only [scanOf, EStateM.run_bind, hfile, EStateM.run_pure] at h
  cases h
  refine ⟨s, hs, by rw [hd.layout], ?_⟩
  rw [Database.rowsIn, hf]
  exact congrArg db.tableRows hd.id

/-! ## 3. Plans that are shut -/

/-- The plan's own node is not open. -/
def Shut : (p : Plan) → p.State → Prop
  | listing _ _, s => (s : Listing.State) = none
  | scan _ _, s => (s : Scan.State) = none
  | join _ o i, s => (s : Join.State o.State i.State).run = none
  | aggregate _ child, s => (s : Aggregate.State child.State).results = none

theorem shuts (p : Plan) : p.stream.Shuts p.Shut := by
  cases p with
  | listing schema rows => exact Listing.shuts schema rows
  | scan table schema => exact Scan.shuts table schema
  | join settings o i => exact Join.shuts settings o.stream i.stream
  | aggregate settings child => exact Aggregate.shuts settings child.stream

theorem shut_closed (p : Plan) : p.Shut p.closed := by
  cases p <;> rfl

/-! ## 4. What a plan comes to -/

/-- What a plan comes to as long as the tables stay as they are: it replays its rows, or one of its
aggregates overflows whenever it is started. -/
inductive Outcome (db : Database) (p : Plan) : Prop
  | replays {rows : List Row} {At : p.State → List Row → Prop} (hrows : p.rows db = .ok rows)
      (hover : ¬ p.Overflows db) (h : p.stream.Replays db.Still rows At)
  | fails {f : Summary} {n : Int} (hrows : p.rows db = .error (.overflow f n))
      (hover : p.Overflows db) (h : p.stream.Fails db.Still p.Shut (.overflow f n))

namespace Outcome

variable {db : Database}

theorem listing {schema : Schema} {rows : List Row} (hrows : ∀ row ∈ rows, row.schema = schema) :
    Outcome db (.listing schema rows) :=
  .replays rfl (fun hover => by cases hover) (Listing.replays schema hrows _)

theorem scan (hrest : db.AtRest) {id : TableId} {s : Shelf} (hs : db.said id = some s)
    (hrows : db.rowsIn s.ref = db.tableRows id) : Outcome db (.scan s.ref s.layout.schema) :=
  .replays (congrArg Except.ok (hrows.trans (hrest.rows_said hs).symm))
    (fun hover => by cases hover)
    (Scan.replays hs fun row hrow => hrest.mirrors.schema_rows hs row hrow)

/-- A join overflows if one of its sides does, the outer one first. -/
theorem join {j : Join} {o i : Plan} (haccepts : j.Accepts o.schema i.schema) (ho : Outcome db o)
    (hi : Outcome db i) : Outcome db (.join j o i) := by
  cases ho with
  | fails hrows hover h =>
    refine .fails ?_ (.outer hover) (Join.fails_of_outer j i.stream h)
    rw [rows, hrows]
    rfl
  | replays hos hovero ho =>
    cases hi with
    | fails hrows hover h =>
      refine .fails ?_ (.inner hover) (Join.fails_of_inner j ho h)
      rw [rows, hos, hrows]
      rfl
    | replays his hoveri hi =>
      rw [← schema_stream o, ← schema_stream i] at haccepts
      refine .replays ?_ ?_ (Join.replays haccepts ho hi)
      · rw [rows, hos, his]
        rfl
      · intro hover
        cases hover with
        | outer h => exact hovero h
        | inner h => exact hoveri h

/-- An aggregate overflows if the plan below it does, or else one of its groups. -/
theorem aggregate {a : Aggregate} {child : Plan} (haccepts : a.Accepts child.schema)
    (hchild : Outcome db child) : Outcome db (.aggregate a child) := by
  cases hchild with
  | fails hrows hover h =>
    refine .fails ?_ (.child hover) (Aggregate.fails_of_child a h)
    rw [rows, hrows]
    rfl
  | @replays below At hbelow hover h =>
    have hrows : (Plan.aggregate a child).rows db = a.rows below := by
      rw [rows, hbelow]
      rfl
    have hschema : ∀ row ∈ below, row.schema = child.schema := fun row hrow =>
      (h.schema row hrow).trans (schema_stream child)
    rcases haccepts.rows_cases hschema with ⟨all, hall⟩ | ⟨n, hn⟩
    · refine .replays (hrows.trans hall) ?_ (Aggregate.replays h hall)
      intro hover'
      cases hover' with
      | here hbelow' hn =>
        obtain rfl := Except.ok.inj (hbelow.symm.trans hbelow')
        rw [hall] at hn
        cases hn
      | child h => exact hover h
    · exact .fails (hrows.trans hn) (.here hbelow hn)
        (Aggregate.fails_of_rows h haccepts (schema_stream child) hn)

end Outcome

/-- **A plan that could be built** replays its rows, or overflows whenever it is started.  By
induction on how it was built. -/
theorem BuiltOver.outcome {db : Database} (hrest : db.AtRest) {p : Plan} (hp : p.BuiltOver db) :
    p.Outcome db := by
  induction hp with
  | listing h =>
    obtain ⟨rfl, hrows⟩ := listing?_eq h
    exact .listing hrows
  | scan href h =>
    obtain ⟨s, hs, rfl, hrows⟩ := scanOf_eq hrest href h
    exact .scan hrest hs hrows
  | join ho hi h iho ihi =>
    obtain ⟨j, rfl, hmake⟩ := join?_eq h
    exact .join (Join.make_accepts hmake).2 iho ihi
  | aggregate hchild h ih =>
    obtain ⟨a, rfl, hmake⟩ := aggregate?_eq h
    exact .aggregate (Aggregate.make_accepts hmake) ih

/-- The rows of a plan have its schema. -/
theorem BuiltOver.schema_rows {db : Database} (hrest : db.AtRest) {p : Plan} (hp : p.BuiltOver db)
    {rows : List Row} (hrows : p.rows db = .ok rows) : ∀ row ∈ rows, row.schema = p.schema := by
  intro row hrow
  cases hp.outcome hrest with
  | replays hrows' hover h =>
    obtain rfl := Except.ok.inj (hrows.symm.trans hrows')
    rw [← schema_stream]
    exact h.schema row hrow
  | fails hrows' hover h =>
    rw [hrows] at hrows'
    cases hrows'

end Plan
end RowStore
