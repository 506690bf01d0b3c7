/-
# The loops of streams never run out

The loop of a join runs no longer than a bound that is worked out from where the join and the
streams below it stand.  While the tables stay as they are, that is enough, because the streams
replay lists.  When they change between two requests there is no list.  But there are numbers: how
many rows a stream can still hand out from where it stands, and how many when it is rewound, as long
as nothing changes any more (`RowStream.Limited`).  A request does not raise them, each row that is
handed out costs one, and the bounds cover them.  That is so of every stream in every state that it
can come to, and so no loop stops before its end.

So a join says that there are no more rows just when it has taken the last block and handed out all
pairs (`Join.spent_of_next`), and there it stays, whatever becomes of the tables
(`Join.next_of_spent`).
-/
import RowStore.Proofs.Stream.Keeping

namespace RowStore

/-! ## 1. Limits -/

namespace StreamM

variable {σ τ α β : Type}

theorem exists_of_bind_ok {x : StreamM σ α} {f : α → StreamM σ β} {s s' : σ × Database} {b : β}
    (h : (x >>= f).run s = .ok b s') :
    ∃ a t db, x.run s = .ok a (t, db) ∧ (f a).run (t, db) = .ok b s' := by
  rw [EStateM.run_bind] at h
  cases hx : x.run s with
  | error e s₁ =>
    rw [hx] at h
    cases h
  | ok a s₁ =>
    rw [hx] at h
    exact ⟨a, s₁.1, s₁.2, rfl, h⟩

theorem exists_of_onPart_ok {part : σ → τ} {put : σ → τ → σ} {x : StreamM τ α} {s s' : σ}
    {db db' : Database} {a : α} (h : (onPart part put x).run (s, db) = .ok a (s', db')) :
    ∃ t, x.run (part s, db) = .ok a (t, db') ∧ s' = put s t := by
  cases hx : x.run (part s, db) with
  | error e s₁ =>
    obtain ⟨t, db₁⟩ := s₁
    rw [run_onPart_error hx] at h
    cases h
  | ok b s₁ =>
    obtain ⟨t, db₁⟩ := s₁
    rw [run_onPart_ok hx] at h
    cases h
    exact ⟨t, rfl, rfl⟩

end StreamM

/-- As long as the tables stay as they are in a database, the stream hands out at most `left` rows,
and when it is rewound at most `again`; and these are within what it says itself. -/
structure RowStream.Limited {σ : Type} (s : RowStream σ) (Fit : σ → Prop) (db : Database)
    (left again : σ → Nat) : Prop extends s.Keeps Fit where
  next_le : ∀ {state state' db₁ db' row}, Quiets db db₁ → Fit state →
    s.next.run (state, db₁) = .ok row (state', db') →
      left state' + row.toList.length ≤ left state ∧ again state' ≤ again state
  rewind_le : ∀ {state state' db₁ db'}, Quiets db db₁ → Fit state →
    s.rewind.run (state, db₁) = .ok () (state', db') →
      left state' ≤ again state ∧ again state' ≤ again state
  le_bound : ∀ {state db₁}, Quiets db db₁ → Fit state →
    left state ≤ s.bound state db₁ ∧ again state ≤ s.bound state db₁

section

variable {σ τ : Type} {db db₁ db' : Database}

theorem StreamM.Keeps.of_ok {α : Type} {Fit : σ → Prop} {x : StreamM σ α} {state state' : σ} {a : α}
    (hx : x.Keeps Fit) (h : Sound db) (hq : Quiets db db₁) (hfit : Fit state)
    (hrun : x.run (state, db₁) = .ok a (state', db')) : Quiets db db' ∧ Fit state' := by
  obtain ⟨hq', hfit'⟩ := hx state db₁ (h.quiets hq) hfit
  rw [hrun] at hq' hfit'
  exact ⟨hq.trans hq', hfit'⟩

/-- **Taking rows** costs what is taken.  By induction on how many are asked for. -/
theorem RowStream.Limited.take_le {s : RowStream σ} {Fit : σ → Prop} {left again : σ → Nat}
    (hs : s.Limited Fit db left again) (h : Sound db) {count : Nat} {state state' : σ}
    {rows : List Row} (hq : Quiets db db₁) (hfit : Fit state)
    (hrun : (s.take count).run (state, db₁) = .ok rows (state', db')) :
    left state' + rows.length ≤ left state ∧ again state' ≤ again state := by
  induction count generalizing state db₁ rows with
  | zero =>
    cases hrun
    exact ⟨Nat.le_refl _, Nat.le_refl _⟩
  | succ count ih =>
    obtain ⟨row, t, db₂, hnext, hrest⟩ := StreamM.exists_of_bind_ok hrun
    obtain ⟨hleft, hagain⟩ := hs.next_le hq hfit hnext
    obtain ⟨hq₂, hfit₂⟩ := hs.next.of_ok h hq hfit hnext
    cases row with
    | none =>
      cases hrest
      exact ⟨hleft, hagain⟩
    | some row =>
      obtain ⟨rest, u, db₃, htake, hpure⟩ := StreamM.exists_of_bind_ok hrest
      cases hpure
      obtain ⟨hleft', hagain'⟩ := ih hq₂ hfit₂ htake
      simp only [Option.toList_some, List.length_singleton] at hleft
      refine ⟨?_, hagain'.trans hagain⟩
      rw [List.length_cons]
      omega

/-! ## 2. The limits of lists, scans and aggregates -/

theorem Listing.limited (schema : Schema) (rows : List Row) (db : Database) :
    (Listing.stream schema rows).Limited (fun state => (state.getD []).length ≤ rows.length) db
      (fun state => (state.getD []).length) (fun _ => rows.length) where
  toKeeps := Listing.keeps schema rows
  next_le := by
    intro state state' db₁ db' row _ hfit hrun
    cases state with
    | none => cases hrun
    | some rest => cases rest <;> cases hrun <;> exact ⟨Nat.le_refl _, Nat.le_refl _⟩
  rewind_le := by
    intro state state' db₁ db' _ hfit hrun
    cases state <;> cases hrun
    exact ⟨Nat.le_refl _, Nat.le_refl _⟩
  le_bound _ hfit := ⟨hfit, Nat.le_refl _⟩

/-- How many rows a scan can have left in a table of so many pages. -/
def Scan.atMost (count : Nat) : State → Nat
  | none => 0
  | some cursor => cursor.rows.length + (count - cursor.nextPage) * 65536

/-- The pages that are passed cost what their rows come to. -/
theorem Scan.Passed.atMost_le {id : TableId} {count : Nat} {cursor cursor' : Cursor}
    {taken : List Row} (hp : Passed db id count cursor cursor' taken) (h : Sound db) :
    atMost count (some cursor') + taken.length ≤ atMost count (some cursor) := by
  have hlength := length_remains_le_pages h id cursor'.nextPage cursor
  rw [hp.rows, List.length_append] at hlength
  have hle := hp.le
  have hwithin := hp.within
  have hpages : cursor'.nextPage - cursor.nextPage + (count - cursor'.nextPage) =
      count - cursor.nextPage := by omega
  have hmul := congrArg (· * 65536) hpages
  simp only [Nat.add_mul] at hmul
  rw [atMost, atMost, ← hmul]
  omega

theorem Scan.limited {id : TableId} {ref : TableRef} {x : Extent} (h : Sound db) (hs : Settled db)
    (href : db.ref? id = some ref) (hx : db.extent? id = some x) (schema : Schema) :
    (Scan.stream ref schema).Limited (fun _ => True) db (atMost x.count)
      (fun _ => x.count * 65536) where
  toKeeps := Scan.keeps ref schema
  next_le := by
    intro state state' db₁ db' row hq _ hrun
    refine ⟨?_, Nat.le_refl _⟩
    cases state with
    | none => cases hrun
    | some cursor =>
      have hadvanced := next_advanced (h.quiets hq) (hs.quiets h hq).1
        ((hq.steps.ref? id).trans href) ((congrFun (h.extent?_quiets hq) id).trans hx) cursor
      have hrun' : (next ref).run (some cursor, db₁) = .ok row (state', db') := hrun
      rw [hrun'] at hadvanced
      cases hadvanced with
      | row _ hp => exact hp.atMost_le (h.quiets hq)
      | ended _ hp => exact hp.atMost_le (h.quiets hq)
  rewind_le := by
    intro state state' db₁ db' _ _ hrun
    cases state with
    | none => cases hrun
    | some cursor =>
      cases hrun
      rw [atMost, List.length_nil, Nat.zero_add]
      exact ⟨Nat.le_refl _, Nat.le_refl _⟩
  le_bound := by
    intro state db₁ hq _
    have hbound := le_pageBound (h.quiets hq) ((hq.steps.ref? id).trans href)
      ((congrFun (h.extent?_quiets hq) id).trans hx)
    have hall := Nat.mul_le_mul_right 65536 hbound
    refine ⟨?_, hall.trans (Nat.le_add_left _ _)⟩
    cases state with
    | none => exact Nat.zero_le _
    | some cursor =>
      have hrest := Nat.mul_le_mul_right 65536 (Nat.sub_le x.count cursor.nextPage)
      exact Nat.add_le_add_left (hrest.trans hall) _

theorem Aggregate.limited (a : Aggregate) {child : RowStream σ} {FitO : σ → Prop}
    (hchild : child.Keeps FitO) (db : Database) :
    (stream a child).Limited (Fit FitO) db (fun s => (s.results.map (·.left.length)).getD 0)
      (fun s => (s.results.map (·.all.length)).getD 0) where
  toKeeps := keeps a hchild
  next_le := by
    rintro ⟨t, results⟩ state' db₁ db' row _ _ hrun
    cases results with
    | none => cases hrun
    | some results =>
      obtain ⟨all, left⟩ := results
      cases left <;> cases hrun <;> exact ⟨Nat.le_refl _, Nat.le_refl _⟩
  rewind_le := by
    rintro ⟨t, results⟩ state' db₁ db' _ _ hrun
    cases results <;> cases hrun
    exact ⟨Nat.le_refl _, Nat.le_refl _⟩
  le_bound := by
    rintro ⟨t, results⟩ db₁ _ hfit
    refine ⟨?_, Nat.le_max_right _ _⟩
    cases results with
    | none => exact Nat.zero_le _
    | some results => exact (hfit.2 results rfl).trans (Nat.le_max_right _ _)

/-! ## 3. The limits of joins -/

namespace Join

/-- How many pairs are to come of a block and of `o` outer rows behind it, when `i` inner rows are
left for the block and `a` for each of the others. -/
def pairs (run : Run) (o i a : Nat) : Nat :=
  run.output.length + ((if spent run then 0 else run.outerBlock.length * i) + o * a)

/-- How many turns can come before the end or the next pair. -/
def turnsAtMost (run : Run) (o i a : Nat) : Nat := (if spent run then 0 else i + 1) + o * (a + 1)

/-- The last block has met all inner rows, and all pairs have been handed out. -/
def Spent (s : State σ τ) : Prop :=
  ∃ run, s.run = some run ∧ run.output = [] ∧ spent run ∧ run.outerDone

section Numbers

variable {join : Join} {run : Run} {block : List Row} {o o' i i' a a' : Nat}

/-- Pairs of an inner block come out of those that it was to have. -/
theorem pairs_merged (hspent : ¬ spent run) (houtput : run.output = [])
    (hi : i' + block.length ≤ i) (ha : a' ≤ a) :
    pairs (join.merged run block) o i' a' ≤ pairs run o i a := by
  have hpairs := length_mergeBlocks_le join.condition run.outerBlock
    (sortBlock join.condition.right block)
  rw [length_sortBlock] at hpairs
  have hrest : (if spent (join.merged run block) then 0 else run.outerBlock.length * i') ≤
      run.outerBlock.length * i' := by split <;> omega
  have hblock := Nat.mul_le_mul_left run.outerBlock.length hi
  rw [Nat.mul_add] at hblock
  have hothers := Nat.mul_le_mul_left o ha
  have houtput' : (join.merged run block).output.length ≤ run.outerBlock.length * block.length :=
    hpairs
  rw [pairs, pairs, houtput, if_neg hspent, List.length_nil]
  change (join.merged run block).output.length + (_ + _) ≤ _
  have hsame : (join.merged run block).outerBlock = run.outerBlock := rfl
  rw [hsame]
  omega

/-- A block that is full has a row. -/
theorem turnsAtMost_merged (hpos : 0 < join.innerCapacity) (hi : i' + block.length ≤ i)
    (ha : a' ≤ a) : turnsAtMost (join.merged run block) o i' a' ≤ i + o * (a + 1) := by
  have hothers := Nat.mul_le_mul_left o (Nat.succ_le_succ ha)
  refine Nat.add_le_add ?_ hothers
  split
  · exact Nat.zero_le _
  · rename_i hmore
    obtain ⟨-, hfull⟩ := Bool.or_eq_false_iff.mp (eq_false_of_ne_true hmore)
    have hfull' := of_decide_eq_false hfull
    omega

/-- The inner rows of an outer block are those that it was to have. -/
theorem pairs_entered (hspent : spent run) (ho : o' + block.length ≤ o) (hi : i' ≤ a)
    (ha : a' ≤ a) : pairs (join.entered run block) o' i' a' ≤ pairs run o i a := by
  have hblock : (if spent (join.entered run block) then 0
      else (join.entered run block).outerBlock.length * i') ≤ block.length * a := by
    split
    · exact Nat.zero_le _
    · have hlength : (join.entered run block).outerBlock.length = block.length :=
        length_sortBlock _ _
      rw [hlength]
      exact Nat.mul_le_mul_left _ hi
  have hothers := Nat.mul_le_mul_left o' ha
  have hall := Nat.mul_le_mul_right a ho
  rw [Nat.add_mul] at hall
  have hsame : (join.entered run block).output = run.output := rfl
  rw [pairs, pairs, if_pos hspent, hsame]
  omega

/-- A block has a row, so that there are turns enough for all inner rows and the end of them. -/
theorem turnsAtMost_entered (hspent : spent run) (hne : block ≠ []) (ho : o' + block.length ≤ o)
    (hi : i' ≤ a) (ha : a' ≤ a) : i' + o' * (a' + 1) < turnsAtMost run o i a := by
  have hlength := List.length_pos_of_ne_nil hne
  have hall : (o' + 1) * (a + 1) ≤ o * (a + 1) := Nat.mul_le_mul_right (a + 1) (by omega)
  have hothers := Nat.mul_le_mul_left o' (Nat.succ_le_succ ha)
  rw [Nat.succ_mul] at hall
  rw [turnsAtMost, if_pos hspent]
  change o' * (a' + 1) ≤ o' * (a + 1) at hothers
  omega

end Numbers

variable {FitO : σ → Prop} {FitI : τ → Prop} {join : Join} {outer : RowStream σ}
  {inner : RowStream τ} {leftO againO : σ → Nat} {leftI againI : τ → Nat} {s s' : State σ τ}
  {run : Run}

theorem nextInner_limited (hi : inner.Limited FitI db leftI againI) (h : Sound db)
    (hq : Quiets db db₁) (hfit : FitI s.inner) {run' : Run}
    (hrun : (nextInner join inner run).run (s, db₁) = .ok run' (s', db')) :
    ∃ block, run' = join.merged run block ∧ s'.run = some run' ∧ s'.outer = s.outer ∧
      leftI s'.inner + block.length ≤ leftI s.inner ∧ againI s'.inner ≤ againI s.inner := by
  obtain ⟨block, s₁, db₂, htake, hrest⟩ := StreamM.exists_of_bind_ok hrun
  obtain ⟨u, htook, rfl⟩ := StreamM.exists_of_onPart_ok htake
  obtain ⟨hleft, hagain⟩ := hi.take_le h hq hfit htook
  simp only [EStateM.run_bind, run_setRun, EStateM.run_pure, length_sortBlock,
    EStateM.Result.ok.injEq, Prod.mk.injEq] at hrest
  obtain ⟨rfl, rfl, rfl⟩ := hrest
  exact ⟨block, rfl, rfl, rfl, hleft, hagain⟩

/-- No more outer rows came. -/
theorem nextOuter_limited_none (ho : outer.Limited FitO db leftO againO) (h : Sound db)
    (hpos : 0 < join.outerCapacity) (hq : Quiets db db₁) (hfit : FitO s.outer)
    (hstate : s.run = some run) (hspent : spent run)
    (hrun : (nextOuter join outer inner run).run (s, db₁) = .ok none (s', db')) :
    ∃ run', s'.run = some run' ∧ run'.output = run.output ∧ spent run' ∧ run'.outerDone ∧
      s'.inner = s.inner ∧ leftO s'.outer ≤ leftO s.outer ∧ againO s'.outer ≤ againO s.outer := by
  unfold nextOuter at hrun
  by_cases hdone : run.outerDone
  · simp only [hdone, if_true, EStateM.run_pure] at hrun
    cases hrun
    exact ⟨run, hstate, rfl, hspent, hdone, rfl, Nat.le_refl _, Nat.le_refl _⟩
  · simp only [hdone, Bool.false_eq_true, if_false] at hrun
    obtain ⟨block, s₁, db₂, htake, hrest⟩ := StreamM.exists_of_bind_ok hrun
    obtain ⟨t, htook, rfl⟩ := StreamM.exists_of_onPart_ok htake
    obtain ⟨hleft, hagain⟩ := ho.take_le h hq hfit htook
    by_cases hempty : block.isEmpty
    · simp only [hempty, if_true, EStateM.run_bind, run_setRun, EStateM.run_pure,
        EStateM.Result.ok.injEq, Prod.mk.injEq, true_and] at hrest
      obtain ⟨rfl, rfl⟩ := hrest
      obtain rfl := List.isEmpty_iff.mp hempty
      exact ⟨_, rfl, rfl, rfl, decide_eq_true hpos, rfl, hleft, hagain⟩
    · simp only [hempty, Bool.false_eq_true, if_false] at hrest
      obtain ⟨_, s₂, db₃, -, hrest⟩ := StreamM.exists_of_bind_ok hrest
      obtain ⟨_, s₃, db₄, -, hrest⟩ := StreamM.exists_of_bind_ok hrest
      obtain ⟨_, s₄, db₅, -, hrest⟩ := StreamM.exists_of_bind_ok hrest
      cases hrest

/-- A block of outer rows came, and the inner stream has been rewound. -/
theorem nextOuter_limited_some (ho : outer.Limited FitO db leftO againO)
    (hi : inner.Limited FitI db leftI againI) (h : Sound db) (hq : Quiets db db₁)
    (hfit : Fit FitO FitI s) {run' : Run}
    (hrun : (nextOuter join outer inner run).run (s, db₁) = .ok (some run') (s', db')) :
    ∃ block, block ≠ [] ∧ run' = join.entered run block ∧ s'.run = some run' ∧
      leftO s'.outer + block.length ≤ leftO s.outer ∧ againO s'.outer ≤ againO s.outer ∧
      leftI s'.inner ≤ againI s.inner ∧ againI s'.inner ≤ againI s.inner := by
  unfold nextOuter at hrun
  by_cases hdone : run.outerDone
  · simp only [hdone, if_true, EStateM.run_pure] at hrun
    cases hrun
  · simp only [hdone, Bool.false_eq_true, if_false] at hrun
    obtain ⟨block, s₁, db₂, htake, hrest⟩ := StreamM.exists_of_bind_ok hrun
    obtain ⟨t, htook, rfl⟩ := StreamM.exists_of_onPart_ok htake
    obtain ⟨hleft, hagain⟩ := ho.take_le h hq hfit.1 htook
    obtain ⟨hq₂, -⟩ := (ho.toKeeps.take _).of_ok h hq hfit.1 htook
    by_cases hempty : block.isEmpty
    · simp only [hempty, if_true, EStateM.run_bind, run_setRun, EStateM.run_pure] at hrest
      cases hrest
    · simp only [hempty, Bool.false_eq_true, if_false] at hrest
      obtain ⟨_, s₂, db₃, hset, hrest⟩ := StreamM.exists_of_bind_ok hrest
      cases hset
      obtain ⟨_, s₃, db₄, hrewind, hrest⟩ := StreamM.exists_of_bind_ok hrest
      obtain ⟨u, hrewound, rfl⟩ := StreamM.exists_of_onPart_ok hrewind
      obtain ⟨hleft', hagain'⟩ := hi.rewind_le hq₂ hfit.2 hrewound
      simp only [EStateM.run_bind, run_setRun, EStateM.run_pure, EStateM.Result.ok.injEq,
        Option.some.injEq, Prod.mk.injEq] at hrest
      obtain ⟨rfl, rfl, rfl⟩ := hrest
      refine ⟨block, ?_, rfl, rfl, hleft, hagain, hleft', hagain'⟩
      intro hnil
      exact hempty (List.isEmpty_iff.mpr hnil)

/-- How many pairs can be to come of an open join. -/
def atMost (leftO : σ → Nat) (leftI againI : τ → Nat) (s : State σ τ) : Nat :=
  (s.run.map fun run => pairs run (leftO s.outer) (leftI s.inner) (againI s.inner)).getD 0

theorem atMost_eq (hstate : s.run = some run) : atMost leftO leftI againI s =
    pairs run (leftO s.outer) (leftI s.inner) (againI s.inner) := by
  rw [atMost, hstate]
  rfl

/-- The join has gone on from `s` to `s'` with at most `most` pairs to come, of which it has handed
out one or none; in the second case it is at its end. -/
structure Went (leftO againO : σ → Nat) (leftI againI : τ → Nat) (most : Nat) (s s' : State σ τ)
    (row : Option Row) : Prop where
  left : atMost leftO leftI againI s' + row.toList.length ≤ most
  outer : againO s'.outer ≤ againO s.outer
  inner : againI s'.inner ≤ againI s.inner
  spent : row = none → Spent s'

/-- What was done before has not raised the numbers. -/
theorem Went.after {s₁ : State σ τ} {most most₁ : Nat} {row : Option Row}
    (h : Went leftO againO leftI againI most₁ s₁ s' row) (hmost : most₁ ≤ most)
    (houter : againO s₁.outer ≤ againO s.outer) (hinner : againI s₁.inner ≤ againI s.inner) :
    Went leftO againO leftI againI most s s' row :=
  ⟨h.left.trans hmost, h.outer.trans houter, h.inner.trans hinner, h.spent⟩

/-- An inner block is merged and the loop goes on, if the loop does what it should with the fuel
that is left. -/
theorem merge_limited {fuel : Nat} {row : Option Row} (hi : inner.Limited FitI db leftI againI)
    (h : Sound db) (hpi : 0 < join.innerCapacity)
    (hloop : ∀ {s : State σ τ} {db₁ : Database} {run : Run}, Quiets db db₁ → Fit FitO FitI s →
      s.run = some run → turnsAtMost run (leftO s.outer) (leftI s.inner) (againI s.inner) < fuel →
      (advance join outer inner fuel run).run (s, db₁) = .ok row (s', db') →
      Went leftO againO leftI againI (atMost leftO leftI againI s) s s' row)
    (hq : Quiets db db₁) (hfit : Fit FitO FitI s) (hspent : ¬ spent run) (houtput : run.output = [])
    (hfuel : leftI s.inner + leftO s.outer * (againI s.inner + 1) < fuel)
    (hrun : (nextInner join inner run >>= advance join outer inner fuel).run (s, db₁) =
      .ok row (s', db')) :
    Went leftO againO leftI againI
      (pairs run (leftO s.outer) (leftI s.inner) (againI s.inner)) s s' row := by
  obtain ⟨run', s₁, db₂, hinner, hrest⟩ := StreamM.exists_of_bind_ok hrun
  obtain ⟨hq₂, hfit₁⟩ := (nextInner_keeps hi.toKeeps run).of_ok h hq hfit hinner
  obtain ⟨block, rfl, hstate, houter, hleft, hagain⟩ := nextInner_limited hi h hq hfit.2 hinner
  have hturns : turnsAtMost (join.merged run block) (leftO s₁.outer) (leftI s₁.inner)
      (againI s₁.inner) ≤ leftI s.inner + leftO s₁.outer * (againI s.inner + 1) :=
    turnsAtMost_merged hpi hleft hagain
  rw [← houter] at hfuel
  have hwent := hloop hq₂ hfit₁ hstate (Nat.lt_of_le_of_lt hturns hfuel) hrest
  refine hwent.after ?_ (Nat.le_of_eq (by rw [houter])) hagain
  rw [atMost_eq hstate, houter]
  exact pairs_merged hspent houtput hleft hagain

/-- A block with rows that is just taken is not spent. -/
theorem not_spent_entered {block : List Row} (hne : block ≠ []) :
    ¬ spent (join.entered run block) := by
  intro hyes
  rcases Bool.or_eq_true_iff.mp hyes with hempty | hdone
  · have hlength := congrArg List.length (List.isEmpty_iff.mp hempty)
    change (sortBlock join.condition.left block).length = 0 at hlength
    rw [length_sortBlock] at hlength
    exact hne (List.eq_nil_of_length_eq_zero hlength)
  · cases hdone

/-- **The loop of a join** finds the next pair or comes to the end, and a pair that it hands out is
one less to come.  By induction on the fuel: each turn costs one. -/
theorem advance_limited (ho : outer.Limited FitO db leftO againO)
    (hi : inner.Limited FitI db leftI againI) (h : Sound db) (hpo : 0 < join.outerCapacity)
    (hpi : 0 < join.innerCapacity) {fuel : Nat} {row : Option Row} (hq : Quiets db db₁)
    (hfit : Fit FitO FitI s) (hstate : s.run = some run)
    (hfuel : turnsAtMost run (leftO s.outer) (leftI s.inner) (againI s.inner) < fuel)
    (hrun : (advance join outer inner fuel run).run (s, db₁) = .ok row (s', db')) :
    Went leftO againO leftI againI (atMost leftO leftI againI s) s s' row := by
  induction fuel generalizing s db₁ run with
  | zero => omega
  | succ fuel ih =>
    rw [atMost_eq hstate]
    cases houtput : run.output with
    | cons pair rest =>
      simp only [advance, houtput, EStateM.run_bind, run_setRun, EStateM.run_pure] at hrun
      cases hrun
      refine ⟨?_, Nat.le_refl _, Nat.le_refl _, by rintro ⟨⟩⟩
      have hsame : spent { run with output := rest } = spent run := rfl
      rw [atMost_eq rfl, pairs, pairs, houtput, hsame]
      simp only [List.length_cons, Option.toList_some, List.length_nil]
      omega
    | nil =>
      unfold advance at hrun
      by_cases hspent : spent run
      · have hspent' : (run.outerBlock.isEmpty || run.innerDone) = true := hspent
        simp only [houtput, hspent', if_true] at hrun
        obtain ⟨result, s₁, db₂, houter, hrest⟩ := StreamM.exists_of_bind_ok hrun
        obtain ⟨hq₂, hfit₁⟩ := (nextOuter_keeps ho.toKeeps hi.toKeeps run).of_ok h hq hfit houter
        cases result with
        | none =>
          cases hrest
          obtain ⟨run', hstate', houtput', hspent₁, hdone, hinner, hleft, hagain⟩ :=
            nextOuter_limited_none ho h hpo hq hfit.1 hstate hspent houter
          rw [houtput] at houtput'
          have hend : Spent s' := ⟨run', hstate', houtput', hspent₁, hdone⟩
          refine ⟨?_, hagain, Nat.le_of_eq (by rw [hinner]), fun _ => hend⟩
          have hothers := Nat.mul_le_mul_right (againI s.inner) hleft
          rw [atMost_eq hstate', pairs, pairs, houtput', houtput, if_pos hspent₁, if_pos hspent,
            hinner]
          simp only [List.length_nil, Option.toList_none]
          omega
        | some run' =>
          obtain ⟨block, hne, rfl, hstate₁, hleft, hao, hil, hai⟩ :=
            nextOuter_limited_some ho hi h hq hfit houter
          have hturns : leftI s₁.inner + leftO s₁.outer * (againI s₁.inner + 1) <
              turnsAtMost run (leftO s.outer) (leftI s.inner) (againI s.inner) :=
            turnsAtMost_entered hspent hne hleft hil hai
          have hwent := merge_limited hi h hpi ih hq₂ hfit₁ (not_spent_entered hne) houtput
            (by omega) hrest
          exact hwent.after (pairs_entered hspent hleft hil hai) hao hai
      · have hspent' : (run.outerBlock.isEmpty || run.innerDone) = false :=
          eq_false_of_ne_true hspent
        simp only [houtput, hspent', Bool.false_eq_true, if_false] at hrun
        refine merge_limited hi h hpi ih hq hfit hspent houtput ?_ hrun
        rw [turnsAtMost, if_neg hspent] at hfuel
        omega

/-- There are turns enough in the bounds. -/
theorem turnsAtMost_lt_fuel (ho : outer.Limited FitO db leftO againO)
    (hi : inner.Limited FitI db leftI againI) (hq : Quiets db db₁) (hfit : Fit FitO FitI s)
    (run : Run) :
    turnsAtMost run (leftO s.outer) (leftI s.inner) (againI s.inner) < fuel outer inner s db₁ := by
  obtain ⟨hbo, -⟩ := ho.le_bound hq hfit.1
  obtain ⟨hbi, hba⟩ := hi.le_bound hq hfit.2
  have hmul := Nat.mul_le_mul hbo (Nat.succ_le_succ hba)
  have hfirst : (if spent run then 0 else leftI s.inner + 1) ≤ inner.bound s.inner db₁ + 1 := by
    split <;> omega
  calc turnsAtMost run (leftO s.outer) (leftI s.inner) (againI s.inner)
      ≤ inner.bound s.inner db₁ + 1 + outer.bound s.outer db₁ * (inner.bound s.inner db₁ + 1) :=
        Nat.add_le_add hfirst hmul
    _ = (outer.bound s.outer db₁ + 1) * (inner.bound s.inner db₁ + 1) := by
        rw [Nat.succ_mul, Nat.add_comm]
    _ < fuel outer inner s db₁ := Nat.mul_lt_mul'' (Nat.lt_succ_self _) (Nat.lt_succ_self _)

/-- What a join comes to that is asked for a row. -/
theorem next_limited (ho : outer.Limited FitO db leftO againO)
    (hi : inner.Limited FitI db leftI againI) (h : Sound db) (hpo : 0 < join.outerCapacity)
    (hpi : 0 < join.innerCapacity) {row : Option Row} (hq : Quiets db db₁)
    (hfit : Fit FitO FitI s)
    (hrun : (next join outer inner).run (s, db₁) = .ok row (s', db')) :
    Went leftO againO leftI againI (atMost leftO leftI againI s) s s' row := by
  cases hstate : s.run with
  | none =>
    simp only [next, EStateM.run_bind, EStateM.run_get, hstate] at hrun
    cases hrun
  | some run =>
    have hfuel := turnsAtMost_lt_fuel ho hi hq hfit run
    simp only [next, EStateM.run_bind, EStateM.run_get, hstate] at hrun
    exact advance_limited ho hi h hpo hpi hq hfit hstate hfuel hrun

theorem limited (ho : outer.Limited FitO db leftO againO) (hi : inner.Limited FitI db leftI againI)
    (h : Sound db) (hpo : 0 < join.outerCapacity) (hpi : 0 < join.innerCapacity) :
    (stream join outer inner).Limited (Fit FitO FitI) db (atMost leftO leftI againI)
      fun s => againO s.outer * againI s.inner where
  toKeeps := keeps join ho.toKeeps hi.toKeeps
  next_le := by
    intro s s' db₁ db' row hq hfit hrun
    have hwent := next_limited ho hi h hpo hpi hq hfit hrun
    exact ⟨hwent.left, Nat.mul_le_mul hwent.outer hwent.inner⟩
  rewind_le := by
    rintro ⟨t, u, run⟩ s' db₁ db' hq hfit hrun
    cases run with
    | none => cases hrun
    | some run =>
      have hrun' : (onOuter outer.rewind >>= fun _ => setRun {}).run
          ((⟨t, u, some run⟩ : State σ τ), db₁) = .ok () (s', db') := hrun
      obtain ⟨_, s₁, db₂, hrewind, hset⟩ := StreamM.exists_of_bind_ok hrun'
      obtain ⟨t', hrewound, rfl⟩ := StreamM.exists_of_onPart_ok hrewind
      obtain ⟨hleft, hagain⟩ := ho.rewind_le hq hfit.1 hrewound
      rw [run_setRun] at hset
      cases hset
      refine ⟨?_, Nat.mul_le_mul_right _ hagain⟩
      rw [atMost_eq rfl, pairs, if_pos (show spent {} from rfl), List.length_nil,
        Nat.zero_add, Nat.zero_add]
      exact Nat.mul_le_mul_right _ hleft
  le_bound := by
    intro s db₁ hq hfit
    obtain ⟨hbo, hbao⟩ := ho.le_bound hq hfit.1
    obtain ⟨hbi, hbai⟩ := hi.le_bound hq hfit.2
    have hall := Nat.mul_le_mul hbao hbai
    have hothers := Nat.mul_le_mul hbo hbai
    change _ ≤ bound outer inner s db₁ ∧ _ ≤ bound outer inner s db₁
    cases hstate : s.run with
    | none =>
      rw [atMost, bound, hstate]
      simp only [Option.map_none, Option.getD_none, Nat.zero_add]
      exact ⟨Nat.zero_le _, hall⟩
    | some run =>
      have hblock : (if spent run then 0 else run.outerBlock.length * leftI s.inner) ≤
          run.outerBlock.length * inner.bound s.inner db₁ := by
        split
        · exact Nat.zero_le _
        · exact Nat.mul_le_mul_left _ hbi
      rw [atMost_eq hstate, bound, hstate, pairs]
      simp only [Nat.add_mul]
      omega

/-- **A join that says that there are no more rows** has come to its end. -/
theorem spent_of_next (ho : outer.Limited FitO db leftO againO)
    (hi : inner.Limited FitI db leftI againI) (h : Sound db) (hpo : 0 < join.outerCapacity)
    (hpi : 0 < join.innerCapacity) (hfit : Fit FitO FitI s)
    (hrun : (next join outer inner).run (s, db) = .ok none (s', db')) : Spent s' :=
  (next_limited ho hi h hpo hpi .refl hfit hrun).spent rfl

/-- There it stays, whatever has become of the tables. -/
theorem next_of_spent (join : Join) (outer : RowStream σ) (inner : RowStream τ) (hspent : Spent s)
    (db : Database) : (next join outer inner).run (s, db) = .ok none (s, db) := by
  obtain ⟨run, hstate, houtput, hspent, hdone⟩ := hspent
  have hspent' : (run.outerBlock.isEmpty || run.innerDone) = true := hspent
  simp only [next, EStateM.run_bind, EStateM.run_get, hstate]
  cases fuel outer inner s db with
  | zero => rfl
  | succ fuel =>
    simp only [advance, houtput, hspent', if_true, EStateM.run_bind, nextOuter, hdone,
      EStateM.run_pure]

end Join

end

end RowStore
