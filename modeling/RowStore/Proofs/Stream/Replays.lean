/-
# Streams that replay a list

A stream replays a list if it hands out just the rows of the list, from the first whenever it is
started or rewound, on every database of some kind, and leaves the database of that kind.
`At state rest` says from which states it still hands out `rest`.

What is built on a stream needs no more than that of it: emptying it gives what is left of the list
(`Replays.collect`).  A listing replays its rows (`Listing.replays`).
-/
import RowStore.Stream.Listing
import Mathlib.Tactic.Common

namespace RowStore

/-! ## 1. Steps on a stream -/

namespace StreamM

variable {σ τ α : Type}

theorem run_onDatabase_ok {x : DbM α} {db db' : Database} {a : α} (h : x.run db = .ok a db')
    (s : σ) : (onDatabase x).run (s, db) = .ok a (s, db') := by
  rw [EStateM.run] at h
  simp only [EStateM.run, onDatabase, h]

theorem run_onPart_ok {part : σ → τ} {put : σ → τ → σ} {x : StreamM τ α} {s : σ} {t : τ}
    {db db' : Database} {a : α} (h : x.run (part s, db) = .ok a (t, db')) :
    (onPart part put x).run (s, db) = .ok a (put s t, db') := by
  rw [EStateM.run] at h
  simp only [EStateM.run, onPart, h]

@[simp] theorem run_getState (s : σ) (db : Database) :
    (getState : StreamM σ σ).run (s, db) = .ok s (s, db) := rfl

@[simp] theorem run_setState (s s' : σ) (db : Database) :
    (setState s').run (s, db) = .ok () (s', db) := rfl

@[simp] theorem run_getDatabase (s : σ) (db : Database) :
    (getDatabase : StreamM σ Database).run (s, db) = .ok db (s, db) := rfl

theorem runFrom_ok {x : StreamM σ α} {s s' : σ} {db db' : Database} {a : α}
    (h : x.run (s, db) = .ok a (s', db')) : (runFrom x s).run db = .ok a db' := by
  rw [EStateM.run] at h
  simp only [EStateM.run, runFrom, h]

end StreamM

/-! ## 2. Replaying -/

namespace RowStream

variable {σ : Type}

/-- Opens the stream and takes all its rows. -/
def drain (s : RowStream σ) : StreamM σ (List Row) := do
  s.start
  s.collect

/-- Where the stream has `rest` left of `rows`, on databases that are `Ok`. -/
structure Replays (s : RowStream σ) (Ok : Database → Prop) (rows : List Row)
    (At : σ → List Row → Prop) : Prop where
  schema : ∀ row ∈ rows, row.schema = s.schema
  start : ∀ state db, Ok db → ∃ state' db',
    s.start.run (state, db) = .ok () (state', db') ∧ Ok db' ∧ At state' rows
  rewind : ∀ state db rest, Ok db → At state rest → ∃ state' db',
    s.rewind.run (state, db) = .ok () (state', db') ∧ Ok db' ∧ At state' rows
  next : ∀ state db rest, Ok db → At state rest → ∃ state' db',
    s.next.run (state, db) = .ok rest.head? (state', db') ∧ Ok db' ∧ At state' rest.tail
  bound : ∀ state db rest, Ok db → At state rest →
    rest.length ≤ s.bound state db ∧ rows.length ≤ s.bound state db

namespace Replays

variable {s : RowStream σ} {Ok : Database → Prop} {rows : List Row} {At : σ → List Row → Prop}

/-- **Taking rows** gives the first of those that are left.  By induction on how many are asked
for. -/
theorem take (h : s.Replays Ok rows At) (count : Nat) {rest : List Row} {state : σ} {db : Database}
    (hok : Ok db) (hat : At state rest) :
    ∃ state' db', (s.take count).run (state, db) = .ok (rest.take count) (state', db') ∧ Ok db' ∧
      At state' (rest.drop count) := by
  induction count generalizing rest state db with
  | zero => exact ⟨state, db, rfl, hok, hat⟩
  | succ count ih =>
    obtain ⟨state₁, db₁, hnext, hok₁, hat₁⟩ := h.next state db rest hok hat
    cases rest with
    | nil =>
      refine ⟨state₁, db₁, ?_, hok₁, hat₁⟩
      simp only [RowStream.take, EStateM.run_bind, hnext, List.head?_nil, EStateM.run_pure,
        List.take_nil]
    | cons row rest =>
      obtain ⟨state₂, db₂, htake, hok₂, hat₂⟩ := ih hok₁ hat₁
      refine ⟨state₂, db₂, ?_, hok₂, hat₂⟩
      simp only [RowStream.take, EStateM.run_bind, hnext, List.head?_cons, htake, EStateM.run_pure,
        List.take_succ_cons, List.tail_cons]

/-- **Emptying a stream** gives all that is left. -/
theorem collect (h : s.Replays Ok rows At) {rest : List Row} {state : σ} {db : Database}
    (hok : Ok db) (hat : At state rest) :
    ∃ state' db', s.collect.run (state, db) = .ok rest (state', db') ∧ Ok db' ∧ At state' [] := by
  obtain ⟨hbound, -⟩ := h.bound state db rest hok hat
  obtain ⟨state', db', htake, hend⟩ := h.take (s.bound state db + 1) hok hat
  rw [List.take_of_length_le (Nat.le_succ_of_le hbound)] at htake
  rw [List.drop_of_length_le (Nat.le_succ_of_le hbound)] at hend
  refine ⟨state', db', ?_, hend⟩
  simp only [RowStream.collect, EStateM.run_bind, EStateM.run_get, htake]

/-- Opening a stream and emptying it gives the list. -/
theorem drain (h : s.Replays Ok rows At) (state : σ) {db : Database} (hok : Ok db) :
    ∃ state' db', s.drain.run (state, db) = .ok rows (state', db') ∧ Ok db' ∧ At state' [] := by
  obtain ⟨state₁, db₁, hstart, hok₁, hat₁⟩ := h.start state db hok
  obtain ⟨state₂, db₂, hcollect, hend⟩ := h.collect hok₁ hat₁
  refine ⟨state₂, db₂, ?_, hend⟩
  simp only [RowStream.drain, EStateM.run_bind, hstart, hcollect]

end Replays

end RowStream

/-! ## 3. Listings -/

/-- A listing has left what its state says. -/
theorem Listing.replays (schema : Schema) {rows : List Row}
    (hrows : ∀ row ∈ rows, row.schema = schema) (Ok : Database → Prop) :
    (Listing.stream schema rows).Replays Ok rows
      fun state rest => state = some rest ∧ rest.length ≤ rows.length where
  schema := hrows
  start state db hok := ⟨some rows, db, rfl, hok, rfl, Nat.le_refl _⟩
  rewind := by
    rintro state db rest hok ⟨rfl, -⟩
    exact ⟨some rows, db, rfl, hok, rfl, Nat.le_refl _⟩
  next := by
    rintro state db rest hok ⟨rfl, hle⟩
    cases rest with
    | nil => exact ⟨some [], db, rfl, hok, rfl, hle⟩
    | cons row rest => exact ⟨some rest, db, rfl, hok, rfl, Nat.le_of_succ_le hle⟩
  bound := by
    rintro state db rest - ⟨rfl, hle⟩
    exact ⟨hle, Nat.le_refl _⟩

end RowStore
