/-
# Computations with a journal

The file of a table changes on the way: pages of the cache are written back whenever room is needed
or the cache is flushed, pages are appended, and cut off again.  A `Journaled` computation says how:
it is a computation together with the journal of its run, which is made from the run itself, step by
step.  A part of it either changes no file (`quietly`) or makes one change, which is entered if it
succeeds (`entering`).

What holds on the way can depend on the journal up to there (`Journaled.Leads`,
`Journaled.Upholds`).  There is one lemma for each way of putting computations together, and what
does not look at the journal holds of the operation itself (`Journaled.Upholds.run`).
-/
import RowStore.Proofs.Database.Operations
import RowStore.Proofs.Database.Upholding

namespace RowStore

/-! ## 1. Journals -/

/-- A change to the file of a table. -/
inductive FileChange where
  /-- A page is written to its place. -/
  | write (page : Page)
  /-- The file grows by a page without rows. -/
  | append
  /-- The file ends in front of the page from now on. -/
  | cut (number : Nat)

/-- The page that is written. -/
def FileChange.page? : FileChange → Option Page
  | .write page => some page
  | .append => none
  | .cut _ => none

/-- A change that has been made to the file of a table. -/
structure Journal.Entry where
  table : TableId
  change : FileChange

/-- The changes that have been made, the first one first. -/
abbrev Journal := List Journal.Entry

namespace Journal

/-- The changes to the file of the table. -/
def changesOf (journal : Journal) (table : TableId) : List FileChange :=
  journal.filterMap fun entry => if entry.table = table then some entry.change else none

/-- The pages that have been written to the table. -/
def pagesOf (journal : Journal) (table : TableId) : List Page :=
  (journal.changesOf table).filterMap FileChange.page?

variable {journal : Journal} {table : TableId} {change : FileChange}

theorem changesOf_append (journal rest : Journal) (table : TableId) :
    changesOf (journal ++ rest) table = changesOf journal table ++ changesOf rest table :=
  List.filterMap_append

theorem changesOf_enter : changesOf (journal ++ [⟨table, change⟩]) table =
    changesOf journal table ++ [change] := by
  rw [changesOf_append]
  exact congrArg _ (List.filterMap_cons_some (if_pos rfl))

theorem changesOf_enter_of_ne {other : TableId} (hne : other ≠ table) :
    changesOf (journal ++ [⟨other, change⟩]) table = changesOf journal table := by
  have hnone : changesOf [⟨other, change⟩] table = [] := List.filterMap_cons_none (if_neg hne)
  rw [changesOf_append, hnone, List.append_nil]

@[simp] theorem pagesOf_nil (table : TableId) : pagesOf [] table = [] := rfl

theorem pagesOf_enter : pagesOf (journal ++ [⟨table, change⟩]) table =
    pagesOf journal table ++ change.page?.toList := by
  rw [pagesOf, changesOf_enter, List.filterMap_append]
  cases change <;> rfl

theorem pagesOf_enter_of_ne {other : TableId} (hne : other ≠ table) :
    pagesOf (journal ++ [⟨other, change⟩]) table = pagesOf journal table := by
  rw [pagesOf, changesOf_enter_of_ne hne, pagesOf]

end Journal

/-! ## 2. Computations with a journal -/

/-- A computation with the journal of its run from a state. -/
structure Journaled (σ α : Type) where
  run : EStateM Error σ α
  journal : σ → Journal

namespace Journaled

variable {σ τ α β : Type}

/-- A computation that changes no file. -/
def quietly (x : EStateM Error σ α) : Journaled σ α := ⟨x, fun _ => []⟩

/-- A computation that changes a file, if it succeeds. -/
def entering (entry : α → Journal.Entry) (x : EStateM Error σ α) : Journaled σ α where
  run := x
  journal s := match x.run s with
    | .ok a _ => [entry a]
    | .error _ _ => []

/-- The second part goes on where the first has succeeded, and its journal comes behind. -/
instance : Monad (Journaled σ) where
  pure a := quietly (pure a)
  bind x f :=
    { run := x.run >>= fun a => (f a).run
      journal := fun s => x.journal s ++ match x.run.run s with
        | .ok a s' => (f a).journal s'
        | .error _ _ => [] }

/-- A failure is handled where it arose, and the journal goes on there. -/
def orElse (x : Journaled σ α) (handle : Error → Journaled σ α) : Journaled σ α where
  run := tryCatch x.run fun e => (handle e).run
  journal s := x.journal s ++ match x.run.run s with
    | .ok _ _ => []
    | .error e s' => (handle e).journal s'

/-- A computation on a part of the state. -/
def within (lift : EStateM Error σ α → EStateM Error τ α) (part : τ → σ) (x : Journaled σ α) :
    Journaled τ α :=
  ⟨lift x.run, fun t => x.journal (part t)⟩

@[simp] theorem run_pure (a : α) : (pure a : Journaled σ α).run = pure a := rfl

@[simp] theorem run_quietly (x : EStateM Error σ α) : (quietly x).run = x := rfl

@[simp] theorem run_entering (entry : α → Journal.Entry) (x : EStateM Error σ α) :
    (entering entry x).run = x := rfl

@[simp] theorem run_bind (x : Journaled σ α) (f : α → Journaled σ β) :
    (x >>= f).run = x.run >>= fun a => (f a).run := rfl

@[simp] theorem run_orElse (x : Journaled σ α) (handle : Error → Journaled σ α) :
    (x.orElse handle).run = tryCatch x.run fun e => (handle e).run := rfl

@[simp] theorem run_ite (c : Prop) [Decidable c] (x y : Journaled σ α) :
    (if c then x else y).run = if c then x.run else y.run := apply_ite run c x y

@[simp] theorem run_within (lift : EStateM Error σ α → EStateM Error τ α) (part : τ → σ)
    (x : Journaled σ α) : (x.within lift part).run = lift x.run := rfl

section Journals

variable {x : Journaled σ α} {f : α → Journaled σ β} {handle : Error → Journaled σ α} {s s' : σ}
  {a : α} {e : Error}

@[simp] theorem journal_quietly (x : EStateM Error σ α) (s : σ) : (quietly x).journal s = [] := rfl

theorem journal_entering_ok {entry : α → Journal.Entry} {x : EStateM Error σ α}
    (hrun : x.run s = .ok a s') : (entering entry x).journal s = [entry a] := by
  simp only [entering, hrun]

theorem journal_entering_error {entry : α → Journal.Entry} {x : EStateM Error σ α}
    (hrun : x.run s = .error e s') : (entering entry x).journal s = [] := by
  simp only [entering, hrun]

theorem journal_bind_ok (hrun : x.run.run s = .ok a s') :
    (x >>= f).journal s = x.journal s ++ (f a).journal s' := by
  change x.journal s ++ (match x.run.run s with
    | .ok a s' => (f a).journal s'
    | .error _ _ => []) = _
  rw [hrun]

theorem journal_bind_error (hrun : x.run.run s = .error e s') :
    (x >>= f).journal s = x.journal s := by
  change x.journal s ++ (match x.run.run s with
    | .ok a s' => (f a).journal s'
    | .error _ _ => []) = _
  rw [hrun]
  exact List.append_nil _

theorem journal_get_bind (f : σ → Journaled σ α) (s : σ) :
    (quietly get >>= f).journal s = (f s).journal s := rfl

theorem journal_orElse_ok (hrun : x.run.run s = .ok a s') :
    (x.orElse handle).journal s = x.journal s := by
  simp only [orElse, hrun, List.append_nil]

theorem journal_orElse_error (hrun : x.run.run s = .error e s') :
    (x.orElse handle).journal s = x.journal s ++ (handle e).journal s' := by
  simp only [orElse, hrun]

end Journals

/-- From a good state, with the journal up to there, the computation leads to a good state with the
journal that has come of it, and succeeds only with good results. -/
def Leads (Inv Inv' : Journal → σ → Prop) (Post : α → Prop) (x : Journaled σ α) : Prop :=
  ∀ old s, Inv old s → Ends (Inv' (old ++ x.journal s)) Post (x.run.run s)

/-- The condition is one that the computation keeps. -/
def Upholds (Inv : Journal → σ → Prop) (Post : α → Prop) (x : Journaled σ α) : Prop :=
  Leads Inv Inv Post x

section Conditions

variable {Inv Inv₁ Inv' : Journal → σ → Prop} {Post : α → Prop} {Post' : β → Prop}

/-- What changes no file leads where it leads with any journal. -/
theorem Leads.quietly {x : EStateM Error σ α}
    (hx : ∀ journal, RowStore.Leads (Inv journal) (Inv' journal) Post x) :
    Leads Inv Inv' Post (Journaled.quietly x) := by
  intro old s hs
  change Ends (Inv' (old ++ [])) Post (x.run s)
  rw [List.append_nil]
  exact hx old s hs

/-- A change stands in the journal behind it. -/
theorem Leads.entering {entry : α → Journal.Entry} {x : EStateM Error σ α}
    (hx : ∀ journal s, Inv journal s → match x.run s with
      | .ok a s' => Inv' (journal ++ [entry a]) s' ∧ Post a
      | .error _ s' => Inv' journal s') :
    Leads Inv Inv' Post (Journaled.entering entry x) := by
  intro old s hs
  have hend := hx old s hs
  simp only [Journaled.entering]
  generalize x.run s = r at hend
  cases r with
  | error e s' =>
    simp only [List.append_nil]
    exact hend
  | ok a s' => exact hend

/-- What goes on from the state that the first part has led to, or stops there. -/
theorem Leads.bind {x : Journaled σ α} {f : α → Journaled σ β} (hx : Leads Inv Inv₁ Post x)
    (hinv : ∀ journal s, Inv₁ journal s → Inv' journal s)
    (hf : ∀ a, Post a → Leads Inv₁ Inv' Post' (f a)) : Leads Inv Inv' Post' (x >>= f) := by
  intro old s hs
  have hend := hx old s hs
  rw [run_bind, EStateM.run_bind]
  cases hr : x.run.run s with
  | error e s' =>
    rw [hr] at hend
    rw [journal_bind_error hr]
    exact hinv _ s' hend
  | ok a s' =>
    rw [hr] at hend
    rw [journal_bind_ok hr, ← List.append_assoc]
    exact hf a hend.2 _ s' hend.1

/-- A failure is dealt with in the state that the first part has led to. -/
theorem Leads.orElse {x : Journaled σ α} {handle : Error → Journaled σ α}
    (hx : Leads Inv Inv' Post x) (hhandle : ∀ e, Upholds Inv' Post (handle e)) :
    Leads Inv Inv' Post (x.orElse handle) := by
  intro old s hs
  have hend := hx old s hs
  rw [run_orElse]
  cases hr : x.run.run s with
  | ok a s' =>
    rw [hr] at hend
    rw [run_tryCatch_ok hr, journal_orElse_ok hr]
    exact hend
  | error e s' =>
    rw [hr] at hend
    rw [run_tryCatch_error hr, journal_orElse_error hr, ← List.append_assoc]
    exact hhandle e _ s' hend

/-- What is not refused goes on. -/
theorem Leads.refuse {c : Prop} [Decidable c] {e : Error} {rest : Journaled σ α}
    (hinv : ∀ journal s, Inv journal s → Inv' journal s) (h : Leads Inv Inv' Post rest) :
    Leads Inv Inv' Post (if c then Journaled.quietly (throw e) else rest) := by
  split
  · exact .quietly fun journal s hs => hinv journal s hs
  · exact h

namespace Upholds

theorem leads {x : Journaled σ α} (hx : Upholds Inv Post x)
    (hinv : ∀ journal s, Inv journal s → Inv' journal s) : Leads Inv Inv' Post x := by
  intro old s hs
  have hend := hx old s hs
  generalize x.run.run s = r at hend
  cases r with
  | error e s' => exact hinv _ s' hend
  | ok a s' => exact ⟨hinv _ s' hend.1, hend.2⟩

theorem quietly {x : EStateM Error σ α} (hx : ∀ journal, RowStore.Upholds (Inv journal) Post x) :
    Upholds Inv Post (Journaled.quietly x) :=
  Leads.quietly hx

theorem pure {a : α} (h : Post a) : Upholds Inv Post (Pure.pure a) := .quietly fun _ => .pure h

theorem throw (e : Error) : Upholds Inv Post (Journaled.quietly (MonadExcept.throw e)) :=
  .quietly fun _ => .throw e

/-- The state that is looked at is a good one. -/
theorem get : Upholds Inv (fun s => ∃ journal, Inv journal s)
    (Journaled.quietly (MonadState.get : EStateM Error σ σ)) :=
  .quietly fun journal => RowStore.Upholds.get.mono fun _ hs => ⟨journal, hs⟩

theorem bind {x : Journaled σ α} {f : α → Journaled σ β} (hx : Upholds Inv Post x)
    (hf : ∀ a, Post a → Upholds Inv Post' (f a)) : Upholds Inv Post' (x >>= f) :=
  Leads.bind hx (fun _ _ hs => hs) hf

theorem orElse {x : Journaled σ α} {handle : Error → Journaled σ α} (hx : Upholds Inv Post x)
    (hhandle : ∀ e, Upholds Inv Post (handle e)) : Upholds Inv Post (x.orElse handle) :=
  Leads.orElse hx hhandle

/-- **A condition that does not look at the journal** is kept by the computation itself. -/
theorem run {Inv : σ → Prop} {x : Journaled σ α} (hx : Upholds (fun _ => Inv) Post x) :
    RowStore.Upholds Inv Post x.run :=
  fun s hs => hx [] s hs

/-- What the computation itself keeps does not look at the journal. -/
theorem of_run {Inv : σ → Prop} {x : Journaled σ α} {y : EStateM Error σ α} (hrun : x.run = y)
    (hy : RowStore.Upholds Inv Post y) : Upholds (fun _ => Inv) Post x := by
  intro _ s hs
  rw [hrun]
  exact hy s hs

end Upholds

end Conditions

end Journaled

end RowStore
