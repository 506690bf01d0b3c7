/-
# What is so of the states of a stream

Streams are called in any order, and calls can fail half way.  Two things hold whatever comes of
them.  All that is done to the database is quiet: pages come and go, and say what they said.  And
states keep what makes them sensible, which is little: a listing has no more rows left than it has,
an aggregate no more results (`StreamM.Keeps`, `RowStream.Keeps`).

Both are carried from the parts of a computation to the whole, and so from the streams below a join
or an aggregate to the stream itself.
-/
import RowStore.Proofs.Stream.Calls
import RowStore.Proofs.Stream.Passing

namespace RowStore

/-! ## 1. What a computation keeps -/

namespace StreamM

variable {σ τ α β : Type} {Fit : σ → Prop} {FitT : τ → Prop}

/-- Whatever comes of the computation, all that it does to the database is quiet, and from states of
the kind it leads to such. -/
def Keeps (Fit : σ → Prop) (x : StreamM σ α) : Prop :=
  ∀ state db, Sound db → Fit state →
    Quiets db (endState (x.run (state, db))).2 ∧ Fit (endState (x.run (state, db))).1

namespace Keeps

theorem pure (a : α) : Keeps Fit (Pure.pure a : StreamM σ α) := fun _ _ _ hfit => ⟨.refl, hfit⟩

theorem throw (e : Error) : Keeps Fit (MonadExcept.throw e : StreamM σ α) :=
  fun _ _ _ hfit => ⟨.refl, hfit⟩

theorem getState : Keeps Fit (StreamM.getState : StreamM σ σ) := fun _ _ _ hfit => ⟨.refl, hfit⟩

theorem get : Keeps Fit (MonadState.get : StreamM σ (σ × Database)) :=
  fun _ _ _ hfit => ⟨.refl, hfit⟩

theorem setState {state : σ} (h : Fit state) : Keeps Fit (StreamM.setState state) :=
  fun _ _ _ _ => ⟨.refl, h⟩

theorem bind {x : StreamM σ α} {f : α → StreamM σ β} (hx : Keeps Fit x)
    (hf : ∀ a, Keeps Fit (f a)) : Keeps Fit (x >>= f) := by
  intro state db h hfit
  obtain ⟨hq, hfit'⟩ := hx state db h hfit
  rw [EStateM.run_bind]
  cases hr : x.run (state, db) with
  | error e s =>
    rw [hr] at hq hfit'
    exact ⟨hq, hfit'⟩
  | ok a s =>
    rw [hr] at hq hfit'
    obtain ⟨hq', hfit''⟩ := hf a s.1 s.2 (h.quiets hq) hfit'
    exact ⟨hq.trans hq', hfit''⟩

theorem onDatabase {x : DbM α} (hx : ∀ db, Sound db → Quiets db (endState (x.run db))) :
    Keeps Fit (StreamM.onDatabase x : StreamM σ α) := by
  intro state db h hfit
  have hq := hx db h
  rw [run_onDatabase]
  cases hr : x.run db with
  | error e db' =>
    rw [hr] at hq
    exact ⟨hq, hfit⟩
  | ok a db' =>
    rw [hr] at hq
    exact ⟨hq, hfit⟩

theorem attempt (x : Except Error α) :
    Keeps Fit (StreamM.onDatabase (Database.attempt x) : StreamM σ α) := by
  refine onDatabase fun db _ => ?_
  cases x <;> exact .refl

/-- A step on a part of the state keeps the whole of the kind if it keeps the part. -/
theorem onPart {part : σ → τ} {put : σ → τ → σ} {x : StreamM τ α} (hx : Keeps FitT x)
    (hpart : ∀ s, Fit s → FitT (part s)) (hput : ∀ s t, Fit s → FitT t → Fit (put s t)) :
    Keeps Fit (StreamM.onPart part put x) := by
  intro state db h hfit
  obtain ⟨hq, hfit'⟩ := hx (part state) db h (hpart state hfit)
  cases hr : x.run (part state, db) with
  | error e s =>
    obtain ⟨t, db'⟩ := s
    rw [hr] at hq hfit'
    rw [run_onPart_error hr]
    exact ⟨hq, hput state t hfit hfit'⟩
  | ok a s =>
    obtain ⟨t, db'⟩ := s
    rw [hr] at hq hfit'
    rw [run_onPart_ok hr]
    exact ⟨hq, hput state t hfit hfit'⟩

end Keeps

end StreamM

namespace RowStream

variable {σ : Type} {Fit : σ → Prop}

/-- Every call on the stream keeps its states of the kind, and only reads. -/
structure Keeps (s : RowStream σ) (Fit : σ → Prop) : Prop where
  start : s.start.Keeps Fit
  next : s.next.Keeps Fit
  rewind : s.rewind.Keeps Fit
  close : ∀ state, Fit state → Fit (s.close state)

namespace Keeps

variable {s : RowStream σ}

theorem take (h : s.Keeps Fit) (count : Nat) : (s.take count).Keeps Fit := by
  induction count with
  | zero => exact .pure _
  | succ count ih =>
    refine .bind h.next fun row => ?_
    cases row with
    | none => exact .pure _
    | some row => exact .bind ih fun _ => .pure _

theorem foldUpTo {β : Type} (h : s.Keeps Fit) (step : β → Row → Except Error β) (count : Nat)
    (result : β) : (s.foldUpTo step count result).Keeps Fit := by
  induction count generalizing result with
  | zero => exact .pure _
  | succ count ih =>
    refine .bind h.next fun row => ?_
    cases row with
    | none => exact .pure _
    | some row => exact .bind (.attempt _) fun result => ih result

theorem fold {β : Type} (h : s.Keeps Fit) (step : β → Row → Except Error β) (result : β) :
    (s.fold step result).Keeps Fit :=
  .bind .get fun (_, _) => h.foldUpTo step _ result

/-- **Any call** only reads, and leads to a state of the kind. -/
theorem call (h : s.Keeps Fit) {state : σ} {db : Database} (hsound : Sound db) (hfit : Fit state)
    (call : Call) :
    Quiets db (s.call state db call).2.2 ∧ Fit (s.call state db call).2.1 := by
  have hreplied : ∀ {α : Type} {x : StreamM σ α} (reply : α → Reply), x.Keeps Fit →
      Quiets db (replied reply (x.run (state, db))).2.2 ∧
        Fit (replied reply (x.run (state, db))).2.1 := by
    intro α x reply hx
    have hkeeps := hx state db hsound hfit
    generalize x.run (state, db) = result at hkeeps
    cases result with
    | ok a s => exact hkeeps
    | error e s => exact hkeeps
  cases call with
  | start => exact hreplied _ h.start
  | next => exact hreplied _ h.next
  | rewind => exact hreplied _ h.rewind
  | close => exact ⟨.refl, h.close state hfit⟩

end Keeps

end RowStream

/-! ## 2. What streams keep -/

/-- A listing has no more rows left than it has. -/
theorem Listing.keeps (schema : Schema) (rows : List Row) :
    (Listing.stream schema rows).Keeps fun state => (state.getD []).length ≤ rows.length where
  start := .setState (Nat.le_refl _)
  next := by
    intro state db _ hfit
    cases state with
    | none => exact ⟨.refl, hfit⟩
    | some rest =>
      cases rest with
      | nil => exact ⟨.refl, hfit⟩
      | cons row rest => exact ⟨.refl, Nat.le_of_succ_le hfit⟩
  rewind := by
    intro state db _ hfit
    cases state with
    | none => exact ⟨.refl, hfit⟩
    | some rest => exact ⟨.refl, Nat.le_refl _⟩
  close _ _ := Nat.zero_le _

theorem Scan.keeps (ref : TableRef) (schema : Schema) :
    (Scan.stream ref schema).Keeps fun _ => True where
  start := .setState trivial
  next state db h _ := ⟨Scan.next_onlyReads ref state db h, trivial⟩
  rewind := by
    refine .bind .getState fun state => ?_
    cases state with
    | none => exact .throw _
    | some cursor => exact .setState trivial
  close _ _ := trivial

section

variable {σ τ : Type} {FitO : σ → Prop} {FitI : τ → Prop}

namespace Aggregate

/-- What is so of the stream below, and no more results are left than there are. -/
def Fit (FitO : σ → Prop) (s : State σ) : Prop :=
  FitO s.child ∧ ∀ results, s.results = some results → results.left.length ≤ results.all.length

variable {child : RowStream σ}

theorem onChild_keeps {α : Type} {x : StreamM σ α} (hx : x.Keeps FitO) :
    (onChild x).Keeps (Fit FitO) :=
  .onPart hx (fun _ hfit => hfit.1) fun _ _ hfit ht => ⟨ht, hfit.2⟩

theorem keeps (a : Aggregate) (h : child.Keeps FitO) : (stream a child).Keeps (Fit FitO) where
  start := by
    refine .bind (onChild_keeps h.start) fun _ => ?_
    refine .bind (onChild_keeps (h.fold _ _)) fun groups => ?_
    refine .bind (.attempt _) fun all state db _ hfit => ⟨.refl, hfit.1, ?_⟩
    rintro results ⟨⟩
    exact Nat.le_refl _
  next := by
    rintro ⟨t, results⟩ db _ hfit
    cases results with
    | none => exact ⟨.refl, hfit⟩
    | some results =>
      obtain ⟨all, left⟩ := results
      cases left with
      | nil => exact ⟨.refl, hfit⟩
      | cons row rest =>
        refine ⟨.refl, hfit.1, ?_⟩
        rintro results ⟨⟩
        exact Nat.le_of_succ_le (hfit.2 _ rfl)
  rewind := by
    rintro ⟨t, results⟩ db _ hfit
    cases results with
    | none => exact ⟨.refl, hfit⟩
    | some results =>
      refine ⟨.refl, hfit.1, ?_⟩
      rintro results ⟨⟩
      exact Nat.le_refl _
  close s hfit := ⟨h.close s.child hfit.1, fun results hnone => by cases hnone⟩

end Aggregate

namespace Join

/-- What is so of the two streams below. -/
def Fit (FitO : σ → Prop) (FitI : τ → Prop) (s : State σ τ) : Prop := FitO s.outer ∧ FitI s.inner

variable {join : Join} {outer : RowStream σ} {inner : RowStream τ}

theorem onOuter_keeps {α : Type} {x : StreamM σ α} (hx : x.Keeps FitO) :
    (onOuter x : StreamM (State σ τ) α).Keeps (Fit FitO FitI) :=
  .onPart hx (fun _ hfit => hfit.1) fun _ _ hfit ht => ⟨ht, hfit.2⟩

theorem onInner_keeps {α : Type} {x : StreamM τ α} (hx : x.Keeps FitI) :
    (onInner x : StreamM (State σ τ) α).Keeps (Fit FitO FitI) :=
  .onPart hx (fun _ hfit => hfit.2) fun _ _ hfit ht => ⟨hfit.1, ht⟩

theorem setRun_keeps (run : Run) : (setRun run : StreamM (State σ τ) Unit).Keeps (Fit FitO FitI) :=
  fun _ _ _ hfit => ⟨.refl, hfit⟩

theorem nextInner_keeps (hi : inner.Keeps FitI) (run : Run) :
    (nextInner join inner run : StreamM (State σ τ) Run).Keeps (Fit FitO FitI) :=
  .bind (onInner_keeps (hi.take _)) fun _ => .bind (setRun_keeps _) fun _ => .pure _

theorem nextOuter_keeps (ho : outer.Keeps FitO) (hi : inner.Keeps FitI) (run : Run) :
    (nextOuter join outer inner run).Keeps (Fit FitO FitI) := by
  unfold nextOuter
  by_cases hdone : run.outerDone
  · simp only [hdone, if_true]
    exact .pure _
  · simp only [hdone, Bool.false_eq_true, if_false]
    refine .bind (onOuter_keeps (ho.take _)) fun block => ?_
    by_cases hempty : block.isEmpty
    · simp only [hempty, if_true]
      exact .bind (setRun_keeps _) fun _ => .pure _
    · simp only [hempty, Bool.false_eq_true, if_false]
      refine .bind (setRun_keeps _) fun _ => .bind (onInner_keeps hi.rewind) fun _ => ?_
      exact .bind (setRun_keeps _) fun _ => .pure _

theorem advance_keeps (ho : outer.Keeps FitO) (hi : inner.Keeps FitI) (fuel : Nat) (run : Run) :
    (advance join outer inner fuel run).Keeps (Fit FitO FitI) := by
  induction fuel generalizing run with
  | zero => exact .pure _
  | succ fuel ih =>
    have hmerge : ∀ run, (nextInner join inner run >>= advance join outer inner fuel).Keeps
        (Fit FitO FitI) := fun run => .bind (nextInner_keeps hi run) ih
    unfold advance
    cases run.output with
    | cons row rest => exact .bind (setRun_keeps _) fun _ => .pure _
    | nil =>
      by_cases hspent : run.outerBlock.isEmpty || run.innerDone
      · simp only [hspent, if_true]
        refine .bind (nextOuter_keeps ho hi run) fun run' => ?_
        cases run' with
        | none => exact .pure _
        | some run' => exact hmerge run'
      · simp only [hspent, Bool.false_eq_true, if_false]
        exact hmerge run

theorem keeps (join : Join) (ho : outer.Keeps FitO) (hi : inner.Keeps FitI) :
    (stream join outer inner).Keeps (Fit FitO FitI) where
  start := .bind (onOuter_keeps ho.start) fun _ => .bind (onInner_keeps hi.start) fun _ =>
    setRun_keeps _
  next := by
    refine .bind .get fun (s, db) => ?_
    obtain ⟨t, u, run⟩ := s
    cases run with
    | none => exact .throw _
    | some run => exact advance_keeps ho hi _ run
  rewind := by
    refine .bind .getState fun s => ?_
    obtain ⟨t, u, run⟩ := s
    cases run with
    | none => exact .throw _
    | some run => exact .bind (onOuter_keeps ho.rewind) fun _ => setRun_keeps _
  close s hfit := ⟨ho.close s.outer hfit.1, hi.close s.inner hfit.2⟩

end Join

end

end RowStore
