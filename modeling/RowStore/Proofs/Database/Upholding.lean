/-
# What a computation upholds

A condition on states that every step of a computation keeps, whether it succeeds or fails, is
upheld by the whole; and what is known of the results of the parts carries over to those that come
behind them.  `Upholds` says both at once, of the steps on a database as well as of those on the
state of a stream, and there is one lemma for each way of putting a computation together.  Where the
condition changes on the way, `Leads` has the one in front and the one behind.

A state that was looked at earlier is known to satisfy the condition too (`Upholds.get`), so it must
be one that does not tell the states of one computation apart.
-/
import RowStore.Stream.Basic

namespace RowStore

variable {σ τ α β : Type}

/-- Where a computation has ended: in a good state, and if it has succeeded with a good result. -/
def Ends (Inv : σ → Prop) (Post : α → Prop) : EStateM.Result Error σ α → Prop
  | .ok a s => Inv s ∧ Post a
  | .error _ s => Inv s

/-- From a good state the computation leads to a good state, and succeeds only with good results. -/
def Upholds (Inv : σ → Prop) (Post : α → Prop) (x : EStateM Error σ α) : Prop :=
  ∀ s, Inv s → Ends Inv Post (x.run s)

/-- From a state of the one kind the computation leads to one of the other, and succeeds only with
good results. -/
def Leads (Inv Inv' : σ → Prop) (Post : α → Prop) (x : EStateM Error σ α) : Prop :=
  ∀ s, Inv s → Ends Inv' Post (x.run s)

/-- Any result is good. -/
abbrev Any (_ : α) : Prop := True

theorem Ends.mono {Inv : σ → Prop} {Post Post' : α → Prop} {r : EStateM.Result Error σ α}
    (h : Ends Inv Post r) (hpost : ∀ a, Post a → Post' a) : Ends Inv Post' r := by
  cases r with
  | error e s => exact h
  | ok a s => exact ⟨h.1, hpost a h.2⟩

namespace Upholds

variable {Inv : σ → Prop} {Post : α → Prop} {Post' : β → Prop}

theorem mono {Post₂ : α → Prop} {x : EStateM Error σ α} (hx : Upholds Inv Post x)
    (hpost : ∀ a, Post a → Post₂ a) : Upholds Inv Post₂ x :=
  fun s hs => (hx s hs).mono hpost

theorem any {x : EStateM Error σ α} (hx : Upholds Inv Post x) : Upholds Inv Any x :=
  hx.mono fun _ _ => trivial

/-! ## 1. Putting computations together -/

theorem pure {a : α} (h : Post a) : Upholds Inv Post (Pure.pure a) := fun _ hs => ⟨hs, h⟩

theorem done : Upholds Inv Any (Pure.pure () : EStateM Error σ Unit) := fun _ hs => ⟨hs, trivial⟩

theorem throw (e : Error) : Upholds Inv Post (MonadExcept.throw e) := fun _ hs => hs

/-- The state that is looked at is a good one. -/
theorem get : Upholds Inv Inv (MonadState.get : EStateM Error σ σ) := fun _ hs => ⟨hs, hs⟩

theorem set {s : σ} (h : Inv s) : Upholds Inv Any (MonadStateOf.set s : EStateM Error σ PUnit) :=
  fun _ _ => ⟨h, trivial⟩

theorem change {f : σ → σ} (h : ∀ s, Inv s → Inv (f s)) :
    Upholds Inv Any (modify f : EStateM Error σ PUnit) := fun s hs => ⟨h s hs, trivial⟩

theorem bind {x : EStateM Error σ α} {f : α → EStateM Error σ β} (hx : Upholds Inv Post x)
    (hf : ∀ a, Post a → Upholds Inv Post' (f a)) : Upholds Inv Post' (x >>= f) := by
  intro s hs
  have hend := hx s hs
  rw [EStateM.run_bind]
  cases hr : x.run s with
  | error e s' =>
    rw [hr] at hend
    exact hend
  | ok a s' =>
    rw [hr] at hend
    exact hf a hend.2 s' hend.1

end Upholds

/-! ## 2. Outcomes that touch no state -/

namespace Database

variable {Inv : Database → Prop} {α : Type}

theorem attempt_upholds (x : Except Error α) : Upholds Inv (fun a => x = .ok a) (attempt x) := by
  cases x with
  | ok a => exact .pure rfl
  | error e => exact .throw e

theorem attemptIo_upholds (x : Except IoFault α) :
    Upholds Inv (fun a => x = .ok a) (attemptIo x) := by
  cases x with
  | ok a => exact .pure rfl
  | error fault => exact .throw _

end Database

/-! ## 3. Streams -/

namespace StreamM

/-- The state of the stream is good, and the database is. -/
def Both (Fit : σ → Prop) (Inv : Database → Prop) (s : σ × Database) : Prop := Fit s.1 ∧ Inv s.2

variable {Fit : σ → Prop} {FitT : τ → Prop} {Inv : Database → Prop} {Post : α → Prop}

theorem getState_upholds : Upholds (Both Fit Inv) Fit (getState : StreamM σ σ) :=
  fun _ hs => ⟨hs, hs.1⟩

theorem getDatabase_upholds : Upholds (Both Fit Inv) Inv (getDatabase : StreamM σ Database) :=
  fun _ hs => ⟨hs, hs.2⟩

theorem setState_upholds {s : σ} (h : Fit s) : Upholds (Both Fit Inv) Any (setState s) :=
  fun _ hs => ⟨⟨h, hs.2⟩, trivial⟩

/-- A step on the database leaves the state of the stream alone. -/
theorem onDatabase_ends {x : DbM α} {s : σ × Database} (hfit : Fit s.1)
    (hx : Ends Inv Post (x.run s.2)) : Ends (Both Fit Inv) Post ((onDatabase x).run s) := by
  change Ends Inv Post (x s.2) at hx
  change Ends (Both Fit Inv) Post (onDatabase x s)
  simp only [onDatabase]
  generalize x s.2 = r at hx
  cases r with
  | error e db' => exact ⟨hfit, hx⟩
  | ok a db' => exact ⟨⟨hfit, hx.1⟩, hx.2⟩

theorem onDatabase_upholds {x : DbM α} (hx : Upholds Inv Post x) :
    Upholds (Both Fit Inv) Post (onDatabase x : StreamM σ α) :=
  fun s hs => onDatabase_ends hs.1 (hx s.2 hs.2)

/-- A step on a part of the state upholds what is so of the whole if it upholds what is so of the
part. -/
theorem onPart_upholds {part : σ → τ} {put : σ → τ → σ} {x : StreamM τ α}
    (hx : Upholds (Both FitT Inv) Post x) (hpart : ∀ s, Fit s → FitT (part s))
    (hput : ∀ s t, Fit s → FitT t → Fit (put s t)) :
    Upholds (Both Fit Inv) Post (onPart part put x) := by
  rintro ⟨state, db⟩ ⟨hfit, hdb⟩
  have hend := hx (part state, db) ⟨hpart state hfit, hdb⟩
  change Ends (Both FitT Inv) Post (x (part state, db)) at hend
  change Ends (Both Fit Inv) Post (onPart part put x (state, db))
  simp only [onPart]
  generalize x (part state, db) = r at hend
  cases r with
  | error e s => exact ⟨hput state s.1 hfit hend.1, hend.2⟩
  | ok a s => exact ⟨⟨hput state s.1 hfit hend.1.1, hend.1.2⟩, hend.2⟩

theorem runFrom_ends {x : StreamM σ α} {state : σ} {db : Database}
    (hx : Ends (Both Fit Inv) Post (x.run (state, db))) :
    Ends Inv Post ((runFrom x state).run db) := by
  change Ends (Both Fit Inv) Post (x (state, db)) at hx
  change Ends Inv Post (runFrom x state db)
  simp only [runFrom]
  generalize x (state, db) = r at hx
  cases r with
  | error e s => exact hx.2
  | ok a s => exact ⟨hx.1.2, hx.2⟩

end StreamM

end RowStore
