/-
# Streams of rows

A stream hands out rows one at a time.  It has a state of its own and works on the database, as
a scan reads pages through the pool.  It must be opened before rows are taken from it; `none`
says that there are no more, until the stream is rewound or opened again.

A stream tells a bound on the rows that it will still hand out from a state, and on those that it
will hand out when it is rewound there.  The loops that empty a stream run no longer than that.
-/
import RowStore.Database.Rows

namespace RowStore

/-- A step on the state of a stream and on the database. -/
abbrev StreamM (σ : Type) := EStateM Error (σ × Database)

namespace StreamM

variable {σ τ α : Type}

/-- A step on the database alone. -/
def onDatabase (x : DbM α) : StreamM σ α := fun (s, db) =>
  match x db with
  | .ok a db => .ok a (s, db)
  | .error e db => .error e (s, db)

/-- A step on a part of the state. -/
def onPart (part : σ → τ) (put : σ → τ → σ) (x : StreamM τ α) : StreamM σ α := fun (s, db) =>
  match x (part s, db) with
  | .ok a (t, db) => .ok a (put s t, db)
  | .error e (t, db) => .error e (put s t, db)

def getState : StreamM σ σ := return (← get).1

def setState (s : σ) : StreamM σ Unit := modify fun (_, db) => (s, db)

def getDatabase : StreamM σ Database := return (← get).2

/-- Runs a step from a state, for its outcome and what it does to the database. -/
def runFrom (x : StreamM σ α) (s : σ) : DbM α := fun db =>
  match x (s, db) with
  | .ok a (_, db) => .ok a db
  | .error e (_, db) => .error e db

end StreamM

structure RowStream (σ : Type) where
  /-- The schema of the rows that the stream hands out. -/
  schema : Schema
  bound : σ → Database → Nat
  /-- Makes the stream ready to hand out its first row. -/
  start : StreamM σ Unit
  next : StreamM σ (Option Row)
  /-- Goes back to the first row of a stream that is open. -/
  rewind : StreamM σ Unit
  close : σ → σ

namespace RowStream

variable {σ : Type}

/-- Takes up to `count` rows. -/
def take (s : RowStream σ) : (count : Nat) → StreamM σ (List Row)
  | 0 => return []
  | count + 1 => do
    match ← s.next with
    | none => return []
    | some row => return row :: (← s.take count)

/-- Takes all the rows that are left. -/
def collect (s : RowStream σ) : StreamM σ (List Row) := do
  let (state, db) ← get
  s.take (s.bound state db + 1)

/-- Takes up to `count` rows and works each into a result as it comes, up to the first that cannot
be. -/
def foldUpTo {β : Type} (s : RowStream σ) (step : β → Row → Except Error β) :
    (count : Nat) → β → StreamM σ β
  | 0, result => return result
  | count + 1, result => do
    match ← s.next with
    | none => return result
    | some row =>
      let result ← StreamM.onDatabase (Database.attempt (step result row))
      s.foldUpTo step count result

/-- Works all the rows that are left into a result. -/
def fold {β : Type} (s : RowStream σ) (step : β → Row → Except Error β) (result : β) :
    StreamM σ β := do
  let (state, db) ← get
  s.foldUpTo step (s.bound state db + 1) result

end RowStream
end RowStore
