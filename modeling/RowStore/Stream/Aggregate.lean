/-
# Summing up a stream

An aggregate takes all rows of another stream when it is opened, sums up one column for each
value of another, and hands out a row for each group: the value of the group, if there is
grouping, and the sum.  The groups come in the order in which their first rows came.  No rows
make no group.

Sums are kept in sixty-four bits, and stay at an end of these when they would go beyond it; in the
end they must fit thirty-two.
-/
import RowStore.Stream.Basic

namespace RowStore

/-- What an aggregate is told. -/
structure Aggregate where
  field : Nat
  group : Option Nat
  summary : Summary
  /-- The schema of the rows that it hands out. -/
  schema : Schema
deriving DecidableEq, Repr

namespace Aggregate

/-! ## 1. Settings -/

/-- An aggregate over rows of the schema.  The column that is summed up lends its name to the
result, which is a number. -/
def make (rows : Schema) (field : Nat) (group : Option Nat) (summary : Summary) :
    Except Error Aggregate := do
  match rows.column? field with
  | none => throw (.noSuchColumn field)
  | some c =>
    if !summary.accepts c.type then throw (.config (.summaryKind summary c))
    let result : Column := ⟨c.name, .int⟩
    match group with
    | none => return ⟨field, none, summary, ⟨[result]⟩⟩
    | some g =>
      match rows.column? g with
      | none => throw (.noSuchColumn g)
      | some k => return ⟨field, some g, summary, ⟨[k, result]⟩⟩

/-! ## 2. Tallies -/

/-- What is kept of the values of a group. -/
structure Tally where
  count : Nat := 0
  sum : Int := 0
  least : Option Int := none
  greatest : Option Int := none
deriving DecidableEq, Repr

/-- The number of sixty-four bits that comes closest. -/
def saturated (n : Int) : Int := max (-9223372036854775808) (min n 9223372036854775807)

/-- Takes a value into account.  A text counts, and does nothing else. -/
def Tally.add (tally : Tally) (v : Value) : Tally :=
  let tally := { tally with count := tally.count + 1 }
  match v with
  | .text _ => tally
  | .int n => { tally with
      sum := saturated (tally.sum + n.toInt)
      least := some ((tally.least.map (min · n.toInt)).getD n.toInt)
      greatest := some ((tally.greatest.map (max · n.toInt)).getD n.toInt) }

/-- The result, in sixty-four bits.  A mean is cut towards zero. -/
def Tally.result (tally : Tally) : Summary → Int
  | .count => saturated tally.count
  | .sum => tally.sum
  | .avg => tally.sum.tdiv (saturated (max tally.count 1))
  | .min => tally.least.getD 0
  | .max => tally.greatest.getD 0

/-- The number fits thirty-two bits. -/
def fitsWord (n : Int) : Bool := -2147483648 ≤ n && n ≤ 2147483647

/-- The result as a value. -/
def Tally.finish (tally : Tally) (summary : Summary) : Except Error Value :=
  let n := tally.result summary
  if fitsWord n then .ok (.int (Int32.ofInt n)) else .error (.overflow summary n)

/-! ## 3. Groups -/

/-- Groups by their value, in the order of their first rows.  Without grouping there is one, by no
value. -/
abbrev Groups := List (Option Value × Tally)

/-- Takes a value into account in its group. -/
def addTo (key : Option Value) (v : Value) : Groups → Groups
  | [] => [(key, Tally.add {} v)]
  | (k, tally) :: rest =>
    if k = key then (k, tally.add v) :: rest else (k, tally) :: addTo key v rest

/-- The value of a field, which must be there. -/
def fieldOf (row : Row) (field : Nat) : Except Error Value :=
  match row.value? field with
  | some v => .ok v
  | none => .error (.noSuchColumn field)

/-- Takes a row into account. -/
def addRow (a : Aggregate) (groups : Groups) (row : Row) : Except Error Groups := do
  let key ← match a.group with
    | none => pure none
    | some g => some <$> fieldOf row g
  let v ← fieldOf row a.field
  return addTo key v groups

/-- The row that is handed out for a group. -/
def finishGroup (a : Aggregate) : Option Value × Tally → Except Error Row
  | (key, tally) => do
    let result ← tally.finish a.summary
    Row.make a.schema (key.toList ++ [result])

/-- The rows that are handed out for the groups, unless one of them has no row. -/
def finish (a : Aggregate) (groups : Groups) : Except Error (List Row) :=
  groups.mapM a.finishGroup

/-! ## 4. The stream -/

structure Results where
  all : List Row
  /-- Those that have not been handed out. -/
  left : List Row

structure State (σ : Type) where
  child : σ
  /-- `none` until the rows have been summed up. -/
  results : Option Results

section

variable {σ α : Type}

def onChild (x : StreamM σ α) : StreamM (State σ) α :=
  StreamM.onPart State.child (fun s child => { s with child }) x

def setResults (results : Results) : StreamM (State σ) Unit := do
  StreamM.setState { ← StreamM.getState with results := some results }

/-- The results, if there are any yet. -/
def getResults : StreamM (State σ) Results := do
  match (← StreamM.getState).results with
  | none => throw .notOpen
  | some results => return results

variable (a : Aggregate) (child : RowStream σ)

/-- Sums up the rows of the other stream, each as it comes, so that the first that lacks a column
is the last that is taken.  If that fails, results from before are kept. -/
def start : StreamM (State σ) Unit := do
  onChild child.start
  let groups ← onChild (child.fold a.addRow [])
  let all ← StreamM.onDatabase (Database.attempt (a.finish groups))
  setResults ⟨all, all⟩

def next : StreamM (State σ) (Option Row) := do
  let results ← getResults
  match results.left with
  | [] => return none
  | row :: rest =>
    setResults { results with left := rest }
    return some row

/-- Hands the results out again, without looking at the other stream. -/
def rewind : StreamM (State σ) Unit := do
  let results ← getResults
  setResults { results with left := results.all }

def bound (s : State σ) (db : Database) : Nat :=
  max (child.bound s.child db) ((s.results.map (·.all.length)).getD 0)

def stream : RowStream (State σ) where
  schema := a.schema
  bound := bound child
  start := start a child
  next := next
  rewind := rewind
  close s := ⟨child.close s.child, none⟩

end

end Aggregate
end RowStore
