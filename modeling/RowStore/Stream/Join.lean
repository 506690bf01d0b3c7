/-
# Joining two streams

A join hands out the pairs of an outer and an inner row that satisfy its condition, the fields
of the outer row first.  It holds one block of outer rows at a time and reads the inner stream
anew for each, in blocks too; each pair of blocks is sorted and merged.  How many rows a block
has follows from the memory that the join may use.

The join works only as far as it is asked to: a pair of blocks is merged when the pairs of the
one before have been handed out.
-/
import RowStore.Join.Merge
import RowStore.Stream.Basic

namespace RowStore

/-- What a join is told: its condition, and the rows of a block on either side. -/
structure Join where
  condition : JoinCondition
  outerCapacity : Nat
  innerCapacity : Nat
deriving DecidableEq, Repr

namespace Join

/-! ## 1. Settings -/

/-- How many rows of the schema the memory holds; it must hold one. -/
def blockCapacity (budget : Nat) (schema : Schema) : Except Error Nat :=
  let capacity := budget / schema.width
  if capacity = 0 then .error (.config (.joinBudget budget schema.width))
  else .ok capacity

/-- The column that a condition names. -/
def column (schema : Schema) (field : Nat) : Except Error Column :=
  match schema.column? field with
  | some c => .ok c
  | none => .error (.noSuchColumn field)

/-- A join of rows of the two schemas within a budget of bytes for each block.  The comparison
must be one that sorted blocks can be merged on. -/
def make (condition : JoinCondition) (outer inner : Schema) (budget : Nat) : Except Error Join := do
  if condition.comparison = .ne ∨ condition.comparison = .like then
    throw (.config (.joinComparison condition.comparison))
  let left ← column outer condition.left
  let right ← column inner condition.right
  if !left.type.comparable right.type then
    throw (.config (.joinKinds left right))
  let outerCapacity ← blockCapacity budget outer
  let innerCapacity ← blockCapacity budget inner
  return ⟨condition, outerCapacity, innerCapacity⟩

/-! ## 2. Running -/

/-- Where an open join stands. -/
structure Run where
  /-- The outer rows at hand, sorted on their field. -/
  outerBlock : List Row := []
  /-- There are no outer rows behind the block. -/
  outerDone : Bool := false
  /-- The inner rows have all met the outer block. -/
  innerDone : Bool := false
  /-- The pairs to hand out next. -/
  output : List Row := []

structure State (σ τ : Type) where
  outer : σ
  inner : τ
  /-- `none` while the join is closed. -/
  run : Option Run

section

variable {σ τ α : Type}

def onOuter (x : StreamM σ α) : StreamM (State σ τ) α :=
  StreamM.onPart State.outer (fun s outer => { s with outer }) x

def onInner (x : StreamM τ α) : StreamM (State σ τ) α :=
  StreamM.onPart State.inner (fun s inner => { s with inner }) x

def setRun (run : Run) : StreamM (State σ τ) Unit := do
  StreamM.setState { ← StreamM.getState with run := some run }

variable (join : Join) (outer : RowStream σ) (inner : RowStream τ)

/-- Takes the next outer block and goes back to the first inner row.  `none` if there are no more
outer rows. -/
def nextOuter (run : Run) : StreamM (State σ τ) (Option Run) := do
  if run.outerDone then return none
  let block ← onOuter (outer.take join.outerCapacity)
  let run := { run with outerDone := decide (block.length < join.outerCapacity) }
  if block.isEmpty then
    setRun { run with outerBlock := [] }
    return none
  let run := { run with outerBlock := sortBlock join.condition.left block }
  setRun run
  onInner inner.rewind
  let run := { run with innerDone := false }
  setRun run
  return some run

/-- Takes the next inner block and merges it with the outer one. -/
def nextInner (run : Run) : StreamM (State σ τ) Run := do
  let block ← onInner (inner.take join.innerCapacity)
  let block := sortBlock join.condition.right block
  let run := { run with
    innerDone := decide (block.length < join.innerCapacity)
    output := mergeBlocks join.condition run.outerBlock block }
  setRun run
  return run

/-- Hands out a pair, merging up to `fuel` pairs of blocks for it. -/
def advance : (fuel : Nat) → Run → StreamM (State σ τ) (Option Row)
  | 0, _ => return none
  | fuel + 1, run => do
    match run.output with
    | row :: rest =>
      setRun { run with output := rest }
      return some row
    | [] =>
      if run.outerBlock.isEmpty || run.innerDone then
        match ← nextOuter join outer inner run with
        | none => return none
        | some run => advance fuel (← nextInner join inner run)
      else advance fuel (← nextInner join inner run)

/-- No more pairs of blocks are merged than there are pairs of an outer and an inner row, a turn
for each end not forgotten. -/
def fuel (s : State σ τ) (db : Database) : Nat :=
  (outer.bound s.outer db + 2) * (inner.bound s.inner db + 2)

def next : StreamM (State σ τ) (Option Row) := do
  let (s, db) ← get
  match s.run with
  | none => throw .notOpen
  | some run => advance join outer inner (fuel outer inner s db) run

def start : StreamM (State σ τ) Unit := do
  onOuter outer.start
  onInner inner.start
  setRun {}

def rewind : StreamM (State σ τ) Unit := do
  match (← StreamM.getState).run with
  | none => throw .notOpen
  | some _ =>
    onOuter outer.rewind
    setRun {}

/-- Rows that are at hand and those to come, each with every inner row. -/
def bound (s : State σ τ) (db : Database) : Nat :=
  let (waiting, block) := match s.run with
    | none => (0, 0)
    | some run => (run.output.length, run.outerBlock.length)
  waiting + (block + outer.bound s.outer db) * inner.bound s.inner db

def stream : RowStream (State σ τ) where
  schema := outer.schema ++ inner.schema
  bound := bound outer inner
  start := start outer inner
  next := next join outer inner
  rewind := rewind outer
  close s := ⟨outer.close s.outer, inner.close s.inner, none⟩

end

end Join
end RowStore
