/-
# Calls on a stream

A stream can be started, asked for a row, rewound and closed, in any order.  One that replays a
list answers such calls as a cursor over the list does, which can be written down without streams
(`Cursor.replies`).  One whose start always fails answers each call in one way (`Call.refused`).

Both need to know what a stream does that has not been started, or has been closed: it refuses to
go on, and nothing changes (`RowStream.Shuts`).  Whether a stream is shut shows in its own part of
the state.  A join may be shut while one of the streams below it is open, after a start that has
failed half way.

* `Replays.call`: one call on a stream that replays a list.
* `Fails.call`: one call on a stream whose start fails.
-/
import RowStore.Proofs.Stream.Groups
import RowStore.Proofs.Stream.Join
import RowStore.Stream.Scan

namespace RowStore

/-! ## 1. Calls and replies -/

inductive Call where
  | start
  | next
  | rewind
  | close

inductive Reply where
  | done
  /-- A row, or that there are no more. -/
  | row (row : Option Row)
  | failed (e : Error)
deriving DecidableEq

namespace Cursor

/-- What a cursor over a list comes back with, and what it has left then; `none` is a cursor that is
not open. -/
def reply (rows : List Row) : Option (List Row) → Call → Reply × Option (List Row)
  | _, .start => (.done, some rows)
  | _, .close => (.done, none)
  | none, .next => (.failed .notOpen, none)
  | none, .rewind => (.failed .notOpen, none)
  | some rest, .next => (.row rest.head?, some rest.tail)
  | some _, .rewind => (.done, some rows)

def replies (rows : List Row) (left : Option (List Row)) : List Call → List Reply
  | [] => []
  | call :: calls => (reply rows left call).1 :: replies rows (reply rows left call).2 calls

end Cursor

/-- The reply of a stream that never opens. -/
def Call.refused (e : Error) : Call → Reply
  | .start => .failed e
  | .next => .failed .notOpen
  | .rewind => .failed .notOpen
  | .close => .done

namespace RowStream

variable {σ τ α : Type}

/-- What comes back of a step, and the state behind it. -/
def replied (reply : α → Reply) : EStateM.Result Error (σ × Database) α → Reply × (σ × Database)
  | .ok a s => (reply a, s)
  | .error e s => (.failed e, s)

/-- A call on a stream, from a state of the stream and of the database. -/
def call (s : RowStream σ) (state : σ) (db : Database) : Call → Reply × (σ × Database)
  | .start => replied (fun _ => .done) (s.start.run (state, db))
  | .next => replied .row (s.next.run (state, db))
  | .rewind => replied (fun _ => .done) (s.rewind.run (state, db))
  | .close => (.done, (s.close state, db))

/-! ## 2. Streams that are shut -/

/-- In some states the stream refuses to go on, and nothing changes; closing leads to such. -/
structure Shuts (s : RowStream σ) (Shut : σ → Prop) : Prop where
  next : ∀ state db, Shut state → s.next.run (state, db) = .error .notOpen (state, db)
  rewind : ∀ state db, Shut state → s.rewind.run (state, db) = .error .notOpen (state, db)
  close : ∀ state, Shut (s.close state)

end RowStream

theorem Listing.shuts (schema : Schema) (rows : List Row) :
    (Listing.stream schema rows).Shuts (· = none) where
  next := by rintro state db rfl; rfl
  rewind := by rintro state db rfl; rfl
  close _ := rfl

theorem Scan.shuts (ref : TableRef) (schema : Schema) :
    (Scan.stream ref schema).Shuts (· = none) where
  next := by rintro state db rfl; rfl
  rewind := by rintro state db rfl; rfl
  close _ := rfl

section

variable {σ τ : Type}

theorem Join.shuts (join : Join) (outer : RowStream σ) (inner : RowStream τ) :
    (Join.stream join outer inner).Shuts fun s => s.run = none where
  next := by
    rintro ⟨t, u, run⟩ db rfl
    rfl
  rewind := by
    rintro ⟨t, u, run⟩ db rfl
    rfl
  close _ := rfl

theorem Aggregate.shuts (a : Aggregate) (child : RowStream σ) :
    (Aggregate.stream a child).Shuts fun s => s.results = none where
  next := by
    rintro ⟨t, results⟩ db rfl
    rfl
  rewind := by
    rintro ⟨t, results⟩ db rfl
    rfl
  close _ := rfl

end

/-! ## 3. Streams whose start fails -/

namespace StreamM

variable {σ τ α : Type}

theorem run_onPart_error {part : σ → τ} {put : σ → τ → σ} {x : StreamM τ α} {s : σ} {t : τ}
    {db db' : Database} {e : Error} (h : x.run (part s, db) = .error e (t, db')) :
    (onPart part put x).run (s, db) = .error e (put s t, db') := by
  rw [EStateM.run] at h
  simp only [EStateM.run, onPart, h]

end StreamM

/-- However often it is started, the stream comes to the error, and is no more open than before. -/
structure RowStream.Fails {σ : Type} (s : RowStream σ) (Ok : Database → Prop) (Shut : σ → Prop)
    (e : Error) : Prop where
  start : ∀ state db, Ok db → ∃ state' db', s.start.run (state, db) = .error e (state', db') ∧
    Ok db' ∧ (Shut state → Shut state')

section

variable {σ τ : Type} {Ok : Database → Prop} {outer : RowStream σ} {inner : RowStream τ}
  {Shut : σ → Prop} {e : Error}

/-- A join does not start if the outer stream does not. -/
theorem Join.fails_of_outer (join : Join) (inner : RowStream τ) (h : outer.Fails Ok Shut e) :
    (Join.stream join outer inner).Fails Ok (fun s => s.run = none) e where
  start := by
    rintro ⟨t, u, run⟩ db hok
    obtain ⟨t', db', hstart, hok', -⟩ := h.start t db hok
    have hrun : (onOuter outer.start).run ((⟨t, u, run⟩ : State σ τ), db) =
        .error e (⟨t', u, run⟩, db') := StreamM.run_onPart_error hstart
    refine ⟨⟨t', u, run⟩, db', ?_, hok', id⟩
    change (Join.start outer inner).run (⟨t, u, run⟩, db) = _
    simp only [Join.start, EStateM.run_bind, hrun]

/-- Nor does it if the inner stream does not; the outer one is open then. -/
theorem Join.fails_of_inner (join : Join) {ShutI : τ → Prop} {os : List Row}
    {AtO : σ → List Row → Prop} (ho : outer.Replays Ok os AtO) (h : inner.Fails Ok ShutI e) :
    (Join.stream join outer inner).Fails Ok (fun s => s.run = none) e where
  start := by
    rintro ⟨t, u, run⟩ db hok
    obtain ⟨t', db₁, hstarto, hok₁, -⟩ := ho.start t db hok
    obtain ⟨u', db', hstart, hok', -⟩ := h.start u db₁ hok₁
    have hrun : (onInner inner.start).run ((⟨t', u, run⟩ : State σ τ), db₁) =
        .error e (⟨t', u', run⟩, db') := StreamM.run_onPart_error hstart
    refine ⟨⟨t', u', run⟩, db', ?_, hok', id⟩
    change (Join.start outer inner).run (⟨t, u, run⟩, db) = _
    simp only [Join.start, EStateM.run_bind, run_onOuter_ok hstarto, hrun]

/-- An aggregate does not start if the other stream does not. -/
theorem Aggregate.fails_of_child (a : Aggregate) (h : outer.Fails Ok Shut e) :
    (Aggregate.stream a outer).Fails Ok (fun s => s.results = none) e where
  start := by
    rintro ⟨t, results⟩ db hok
    obtain ⟨t', db', hstart, hok', -⟩ := h.start t db hok
    have hrun : (onChild outer.start).run ((⟨t, results⟩ : State σ), db) =
        .error e (⟨t', results⟩, db') := StreamM.run_onPart_error hstart
    refine ⟨⟨t', results⟩, db', ?_, hok', id⟩
    change (Aggregate.start a outer).run (⟨t, results⟩, db) = _
    simp only [Aggregate.start, EStateM.run_bind, hrun]

/-- Nor does it if its groups have no rows; all rows of the other stream have been taken then. -/
theorem Aggregate.fails_of_rows {a : Aggregate} {schema : Schema} {below : List Row}
    {AtC : σ → List Row → Prop} (hc : outer.Replays Ok below AtC) (haccepts : a.Accepts schema)
    (hschema : outer.schema = schema) (h : a.rows below = .error e) :
    (Aggregate.stream a outer).Fails Ok (fun s => s.results = none) e where
  start := by
    have hbelow : ∀ row ∈ below, row.schema = schema := fun row hrow =>
      (hc.schema row hrow).trans hschema
    have hfold := haccepts.foldlM_addRow hbelow
    rw [haccepts.rows_eq hbelow] at h
    rintro ⟨t, results⟩ db hok
    obtain ⟨t₁, db₁, hstart, hok₁, hat₁⟩ := hc.start t db hok
    obtain ⟨t₂, db₂, hrun, hok₂, -⟩ := hc.fold hfold hok₁ hat₁
    have hfinish : (StreamM.onDatabase (Database.attempt (a.finish (a.groups below)))).run
        ((⟨t₂, results⟩ : State σ), db₂) = .error e (⟨t₂, results⟩, db₂) := by
      rw [h]
      rfl
    refine ⟨⟨t₂, results⟩, db₂, ?_, hok₂, id⟩
    change (Aggregate.start a outer).run (⟨t, results⟩, db) = _
    simp only [Aggregate.start, EStateM.run_bind, run_onChild_ok hstart, run_onChild_ok hrun,
      hfinish]

end

/-! ## 4. One call -/

namespace RowStream

variable {σ : Type} {s : RowStream σ} {Ok : Database → Prop} {Shut : σ → Prop} {rows : List Row}
  {At : σ → List Row → Prop}

/-- The stream has left what the cursor has left, and is shut if the cursor is not open. -/
def Follows (Shut : σ → Prop) (At : σ → List Row → Prop) (state : σ) :
    Option (List Row) → Prop
  | none => Shut state
  | some rest => At state rest

/-- **A stream that replays a list** answers a call as a cursor over the list does. -/
theorem Replays.call (h : s.Replays Ok rows At) (hshuts : s.Shuts Shut) {state : σ} {db : Database}
    (hok : Ok db) {left : Option (List Row)} (hfollows : Follows Shut At state left) (call : Call) :
    ∃ state' db', s.call state db call = ((Cursor.reply rows left call).1, (state', db')) ∧ Ok db' ∧
      Follows Shut At state' (Cursor.reply rows left call).2 := by
  cases call with
  | start =>
    obtain ⟨state', db', hrun, hok', hat⟩ := h.start state db hok
    exact ⟨state', db', by rw [RowStream.call, hrun]; rfl, hok', hat⟩
  | close => exact ⟨s.close state, db, rfl, hok, hshuts.close state⟩
  | next =>
    cases left with
    | none =>
      have hrun := hshuts.next state db hfollows
      exact ⟨state, db, by rw [RowStream.call, hrun]; rfl, hok, hfollows⟩
    | some rest =>
      obtain ⟨state', db', hrun, hok', hat⟩ := h.next state db rest hok hfollows
      exact ⟨state', db', by rw [RowStream.call, hrun]; rfl, hok', hat⟩
  | rewind =>
    cases left with
    | none =>
      have hrun := hshuts.rewind state db hfollows
      exact ⟨state, db, by rw [RowStream.call, hrun]; rfl, hok, hfollows⟩
    | some rest =>
      obtain ⟨state', db', hrun, hok', hat⟩ := h.rewind state db rest hok hfollows
      exact ⟨state', db', by rw [RowStream.call, hrun]; rfl, hok', hat⟩

/-- **A stream whose start fails** never opens. -/
theorem Fails.call {e : Error} (h : s.Fails Ok Shut e) (hshuts : s.Shuts Shut) {state : σ}
    {db : Database} (hok : Ok db) (hshut : Shut state) (call : Call) :
    ∃ state' db', s.call state db call = (call.refused e, (state', db')) ∧ Ok db' ∧
      Shut state' := by
  cases call with
  | start =>
    obtain ⟨state', db', hrun, hok', hstays⟩ := h.start state db hok
    exact ⟨state', db', by rw [RowStream.call, hrun]; rfl, hok', hstays hshut⟩
  | close => exact ⟨s.close state, db, rfl, hok, hshuts.close state⟩
  | next =>
    have hrun := hshuts.next state db hshut
    exact ⟨state, db, by rw [RowStream.call, hrun]; rfl, hok, hshut⟩
  | rewind =>
    have hrun := hshuts.rewind state db hshut
    exact ⟨state, db, by rw [RowStream.call, hrun]; rfl, hok, hshut⟩

end RowStream
end RowStore
