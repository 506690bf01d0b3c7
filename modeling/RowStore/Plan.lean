/-
# Plans

A plan says how rows are worked out: listings and tables at the leaves, joins and aggregates
above them.  Every plan is a stream, whose state has a part for each node of the plan.

The constructors that can be asked for something impossible have a checked form: `listing?`,
`join?` and `aggregate?`.
-/
import RowStore.Stream.Aggregate
import RowStore.Stream.Join
import RowStore.Stream.Listing
import RowStore.Stream.Scan

namespace RowStore

inductive Plan where
  | listing (schema : Schema) (rows : List Row)
  /-- The rows of a table file, which have the schema. -/
  | scan (table : TableRef) (schema : Schema)
  | join (settings : Join) (outer inner : Plan)
  | aggregate (settings : Aggregate) (child : Plan)

namespace Plan

/-! ## 1. Building -/

/-- The schema of the rows that the plan works out. -/
def schema : Plan → Schema
  | listing s _ => s
  | scan _ s => s
  | join _ outer inner => outer.schema ++ inner.schema
  | aggregate a _ => a.schema

def listing? (schema : Schema) (rows : List Row) : Except Error Plan := do
  Listing.check schema rows
  return listing schema rows

def join? (condition : JoinCondition) (outer inner : Plan) (budget : Nat) : Except Error Plan := do
  return join (← Join.make condition outer.schema inner.schema budget) outer inner

def aggregate? (child : Plan) (field : Nat) (group : Option Nat) (summary : Summary) :
    Except Error Plan := do
  return aggregate (← Aggregate.make child.schema field group summary) child

/-- The scan of a table file. -/
def scanOf (table : TableRef) : DbM Plan := do
  return scan table (← Database.file table).layout.schema

/-! ## 2. Running -/

/-- The state of the plan's stream. -/
def State : Plan → Type
  | listing _ _ => Listing.State
  | scan _ _ => Scan.State
  | join _ outer inner => Join.State outer.State inner.State
  | aggregate _ child => Aggregate.State child.State

/-- The state in which nothing is open. -/
def closed : (p : Plan) → p.State
  | listing _ _ => (none : Listing.State)
  | scan _ _ => (none : Scan.State)
  | join _ outer inner => (⟨outer.closed, inner.closed, none⟩ : Join.State _ _)
  | aggregate _ child => (⟨child.closed, none⟩ : Aggregate.State _)

/-- The stream of the plan's rows. -/
def stream : (p : Plan) → RowStream p.State
  | listing s rows => Listing.stream s rows
  | scan table s => Scan.stream table s
  | join settings outer inner => Join.stream settings outer.stream inner.stream
  | aggregate settings child => Aggregate.stream settings child.stream

end Plan

/-- A plan that is being run. -/
structure Query where
  plan : Plan
  state : plan.State

namespace Query

/-- The plan, not open yet. -/
def ofPlan (p : Plan) : Query := ⟨p, p.closed⟩

/-- Runs a step of the plan's stream; the query goes on from where it ended, also after an
error. -/
def run {α : Type} (q : Query) (step : RowStream q.plan.State → StreamM q.plan.State α)
    (db : Database) : Except Error α × Query × Database :=
  match step q.plan.stream (q.state, db) with
  | .ok a (state, db) => (.ok a, ⟨q.plan, state⟩, db)
  | .error e (state, db) => (.error e, ⟨q.plan, state⟩, db)

def start (q : Query) : Database → Except Error Unit × Query × Database := q.run (·.start)

def next (q : Query) : Database → Except Error (Option Row) × Query × Database := q.run (·.next)

def rewind (q : Query) : Database → Except Error Unit × Query × Database := q.run (·.rewind)

def collect (q : Query) : Database → Except Error (List Row) × Query × Database :=
  q.run (·.collect)

def close (q : Query) : Query := ⟨q.plan, q.plan.stream.close q.state⟩

end Query
end RowStore
