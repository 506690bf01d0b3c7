/-
# An aggregate replays its groups

An aggregate takes the rows of the other stream once, when it is opened, and hands out its results
from then on.  These are a function of the rows (`Aggregate.rows`), which may have no result: a sum
can be too large, for one.

* `RowStream.Replays.fold`: working the rows of a stream into a result.
* `Aggregate.replays`: an aggregate of a stream that replays rows replays their groups.
-/
import RowStore.Stream.Aggregate
import RowStore.Proofs.Stream.Replays

namespace RowStore

/-! ## 1. Working rows into a result -/

namespace RowStream.Replays

variable {σ β : Type} {s : RowStream σ} {Ok : Database → Prop} {rows : List Row}
  {At : σ → List Row → Prop} {step : β → Row → Except Error β}

/-- By induction on how many rows are asked for, which are no fewer than there are. -/
theorem foldUpTo (h : s.Replays Ok rows At) {count : Nat} {rest : List Row}
    (hcount : rest.length ≤ count) {result final : β} (hfold : rest.foldlM step result = .ok final)
    {state : σ} {db : Database} (hok : Ok db) (hat : At state rest) :
    ∃ state' db', (s.foldUpTo step count result).run (state, db) = .ok final (state', db') ∧
      Ok db' ∧ At state' [] := by
  induction count generalizing rest result state db with
  | zero =>
    obtain rfl := List.length_eq_zero_iff.mp (Nat.le_zero.mp hcount)
    cases hfold
    exact ⟨state, db, rfl, hok, hat⟩
  | succ count ih =>
    obtain ⟨state₁, db₁, hnext, hok₁, hat₁⟩ := h.next state db rest hok hat
    cases rest with
    | nil =>
      cases hfold
      refine ⟨state₁, db₁, ?_, hok₁, hat₁⟩
      simp only [RowStream.foldUpTo, EStateM.run_bind, hnext, List.head?_nil, EStateM.run_pure]
    | cons row rest =>
      rw [List.foldlM_cons] at hfold
      obtain ⟨result', hstep, hfold⟩ := exists_of_bind_ok hfold
      obtain ⟨state₂, db₂, hrun, hend⟩ := ih (Nat.le_of_succ_le_succ hcount) hfold hok₁ hat₁
      have hattempt : (Database.attempt (step result row)).run db₁ = .ok result' db₁ := by
        rw [hstep]
        rfl
      refine ⟨state₂, db₂, ?_, hend⟩
      simp only [RowStream.foldUpTo, EStateM.run_bind, hnext, List.head?_cons,
        StreamM.run_onDatabase_ok hattempt, hrun]

/-- **Working all rows that are left into a result.** -/
theorem fold (h : s.Replays Ok rows At) {rest : List Row} {result final : β}
    (hfold : rest.foldlM step result = .ok final) {state : σ} {db : Database} (hok : Ok db)
    (hat : At state rest) :
    ∃ state' db', (s.fold step result).run (state, db) = .ok final (state', db') ∧
      Ok db' ∧ At state' [] := by
  obtain ⟨hbound, -⟩ := h.bound state db rest hok hat
  obtain ⟨state', db', hrun, hend⟩ := h.foldUpTo (Nat.le_succ_of_le hbound) hfold hok hat
  refine ⟨state', db', ?_, hend⟩
  simp only [RowStream.fold, EStateM.run_bind, EStateM.run_get, hrun]

end RowStream.Replays

namespace Aggregate

variable {σ : Type} {a : Aggregate}

/-! ## 2. The rows of an aggregate -/

/-- The rows that are handed out for the rows of the other stream. -/
def rows (a : Aggregate) (child : List Row) : Except Error (List Row) := do
  a.finish (← child.foldlM a.addRow [])

theorem schema_finishGroup {group : Option Value × Tally} {row : Row}
    (h : a.finishGroup group = .ok row) : row.schema = a.schema := by
  obtain ⟨key, tally⟩ := group
  obtain ⟨result, -, h⟩ := exists_of_bind_ok h
  unfold Row.make at h
  split at h
  · cases h
    rfl
  · cases h

theorem schema_finish {groups : Groups} {all : List Row} (h : a.finish groups = .ok all) :
    ∀ row ∈ all, row.schema = a.schema := by
  unfold finish at h
  induction groups generalizing all with
  | nil =>
    cases h
    exact fun row hrow => absurd hrow List.not_mem_nil
  | cons group groups ih =>
    rw [List.mapM_cons] at h
    obtain ⟨first, hfirst, h⟩ := exists_of_bind_ok h
    obtain ⟨rest, hrest, h⟩ := exists_of_bind_ok h
    cases h
    intro row hrow
    rcases List.mem_cons.mp hrow with rfl | hrow
    · exact schema_finishGroup hfirst
    · exact ih hrest row hrow

/-! ## 3. The aggregate as a stream -/

theorem run_onChild_ok {α : Type} {x : StreamM σ α} {t t' : σ} {db db' : Database} {b : α}
    (h : x.run (t, db) = .ok b (t', db')) (results : Option Results) :
    (onChild x).run (⟨t, results⟩, db) = .ok b (⟨t', results⟩, db') :=
  StreamM.run_onPart_ok h

@[simp] theorem run_setResults (results : Results) (s : State σ) (db : Database) :
    (setResults results).run (s, db) = .ok () (⟨s.child, some results⟩, db) := rfl

/-- The aggregate has `rest` left of its results. -/
def At (all : List Row) (s : State σ) (rest : List Row) : Prop :=
  s.results = some ⟨all, rest⟩ ∧ rest.length ≤ all.length

/-- **An aggregate of a stream that replays rows** replays their groups, if they have results. -/
theorem replays {child : RowStream σ} {Ok : Database → Prop} {below all : List Row}
    {AtC : σ → List Row → Prop} (h : child.Replays Ok below AtC) (hrows : a.rows below = .ok all) :
    (stream a child).Replays Ok all (At all) := by
  obtain ⟨groups, hgroups, hfinish⟩ := exists_of_bind_ok hrows
  refine ⟨schema_finish hfinish, ?start, ?rewind, ?next, ?bound⟩
  case start =>
    rintro ⟨t, results⟩ db hok
    obtain ⟨t₁, db₁, hstart, hok₁, hat₁⟩ := h.start t db hok
    obtain ⟨t₂, db₂, hfold, hok₂, -⟩ := h.fold hgroups hok₁ hat₁
    have hattempt : (Database.attempt (a.finish groups)).run db₂ = .ok all db₂ := by
      rw [hfinish]
      rfl
    refine ⟨⟨t₂, some ⟨all, all⟩⟩, db₂, ?_, hok₂, rfl, Nat.le_refl _⟩
    change (start a child).run (⟨t, results⟩, db) = _
    simp only [start, EStateM.run_bind, run_onChild_ok hstart, run_onChild_ok hfold,
      StreamM.run_onDatabase_ok hattempt, run_setResults]
  case rewind =>
    rintro ⟨t, results⟩ db rest hok ⟨hresults, -⟩
    obtain rfl : results = some ⟨all, rest⟩ := hresults
    exact ⟨⟨t, some ⟨all, all⟩⟩, db, rfl, hok, rfl, Nat.le_refl _⟩
  case next =>
    rintro ⟨t, results⟩ db rest hok ⟨hresults, hle⟩
    obtain rfl : results = some ⟨all, rest⟩ := hresults
    cases rest with
    | nil => exact ⟨⟨t, some ⟨all, []⟩⟩, db, rfl, hok, rfl, hle⟩
    | cons row rest => exact ⟨⟨t, some ⟨all, rest⟩⟩, db, rfl, hok, rfl, Nat.le_of_succ_le hle⟩
  case bound =>
    rintro ⟨t, results⟩ db rest - ⟨hresults, hle⟩
    obtain rfl : results = some ⟨all, rest⟩ := hresults
    have hbound : all.length ≤ bound child ⟨t, some ⟨all, rest⟩⟩ db := Nat.le_max_right _ _
    exact ⟨Nat.le_trans hle hbound, hbound⟩

end Aggregate
end RowStore
