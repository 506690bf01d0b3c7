/-
# A join replays its pairs

An open join stands between two lists: `o` is what is left of the outer rows behind the block at
hand, `i` what is left of the inner rows for that block.  What it has left to hand out follows from
these and the pairs that are merged already (`Join.left`).  A turn of its loop takes a block from
one list or from both and merges; it changes what is at hand, but not what is left.  The ends of the
lists are only noticed when a block comes short.  A list that fills its last block costs one more
turn, with nothing in it.

* `Join.replays`: a join of streams that replay lists replays the rows of the join.
* `Join.drain_perm_nestedLoop`: these are the pairs of the nested loop.
-/
import RowStore.Proofs.Join.Blocks
import RowStore.Proofs.Stream.Replays

namespace RowStore
namespace Join

variable {σ τ α : Type}

/-! ## 1. Steps on the parts -/

theorem run_onOuter_ok {x : StreamM σ α} {t t' : σ} {db db' : Database} {a : α}
    (h : x.run (t, db) = .ok a (t', db')) (u : τ) (run : Option Run) :
    (onOuter x).run (⟨t, u, run⟩, db) = .ok a (⟨t', u, run⟩, db') :=
  StreamM.run_onPart_ok h

theorem run_onInner_ok {x : StreamM τ α} {u u' : τ} {db db' : Database} {a : α}
    (h : x.run (u, db) = .ok a (u', db')) (t : σ) (run : Option Run) :
    (onInner x).run (⟨t, u, run⟩, db) = .ok a (⟨t, u', run⟩, db') :=
  StreamM.run_onPart_ok h

@[simp] theorem run_setRun (run : Run) (s : State σ τ) (db : Database) :
    (setRun run).run (s, db) = .ok () (⟨s.outer, s.inner, some run⟩, db) := rfl

/-! ## 2. Where a join stands -/

/-- The pairs that are merged, those of the block at hand with what is left of the inner rows, and
those of the outer rows that are left with all inner ones. -/
def left (join : Join) (is : List Row) (run : Run) (o i : List Row) : List Row :=
  run.output ++ (join.blockRows run.outerBlock i ++ join.rows o is)

/-- The open join has `o` left of the outer rows and `i` of the inner ones.  What it takes for the
end is one. -/
structure Stands (AtO : σ → List Row → Prop) (AtI : τ → List Row → Prop) (s : State σ τ) (run : Run)
    (o i : List Row) : Prop where
  run_eq : s.run = some run
  outer : AtO s.outer o
  inner : AtI s.inner i
  outerDone : run.outerDone → o = []
  innerDone : run.innerDone → i = []

/-- The join has `rest` left to hand out. -/
def At (join : Join) (AtO : σ → List Row → Prop) (AtI : τ → List Row → Prop) (is : List Row)
    (s : State σ τ) (rest : List Row) : Prop :=
  ∃ run o i, Stands AtO AtI s run o i ∧ rest = left join is run o i

/-- The block at hand has met all inner rows, or there is none. -/
def spent (run : Run) : Bool := run.outerBlock.isEmpty || run.innerDone

/-- No more turns than this come before the end or the next pair: one for each inner row and one
for the end of them, and as many for each outer row. -/
def turns (is : List Row) (run : Run) (o i : List Row) : Nat :=
  (if spent run then 0 else i.length + 1) + o.length * (is.length + 1)

variable {join : Join} {outer : RowStream σ} {inner : RowStream τ} {Ok : Database → Prop}
  {os is : List Row} {AtO : σ → List Row → Prop} {AtI : τ → List Row → Prop}
  {s : State σ τ} {db : Database} {run : Run} {o i : List Row}

/-- A spent block has no pairs left. -/
theorem Stands.blockRows_of_spent (h : Stands AtO AtI s run o i) (hspent : spent run) :
    join.blockRows run.outerBlock i = [] := by
  rcases Bool.or_eq_true_iff.mp hspent with hempty | hdone
  · rw [List.isEmpty_iff.mp hempty, blockRows_nil_left]
  · rw [h.innerDone hdone, blockRows_nil_right]

/-- With no outer rows behind a spent block nothing is left. -/
theorem Stands.left_eq_nil (h : Stands AtO AtI s run [] i) (hspent : spent run)
    (houtput : run.output = []) : left join is run [] i = [] := by
  rw [left, houtput, h.blockRows_of_spent hspent, rows_nil_left]
  rfl

theorem stands_first {t : σ} {u : τ} (ho : AtO t os) (hi : AtI u i) :
    Stands AtO AtI ⟨t, u, some {}⟩ {} os i where
  run_eq := rfl
  outer := ho
  inner := hi
  outerDone hdone := by cases hdone
  innerDone hdone := by cases hdone

theorem left_first (join : Join) (is os i : List Row) : left join is {} os i = join.rows os is := by
  rw [left, blockRows_nil_left]
  rfl

/-- A join that stands before the first outer row has all left. -/
theorem at_first {t : σ} {u : τ} (ho : AtO t os) (hi : AtI u i) :
    At join AtO AtI is ⟨t, u, some {}⟩ (join.rows os is) :=
  ⟨{}, os, i, stands_first ho hi, (left_first join is os i).symm⟩

/-! ## 3. The next inner block -/

/-- After merging an inner block. -/
def merged (join : Join) (run : Run) (block : List Row) : Run :=
  { run with
    innerDone := decide (block.length < join.innerCapacity)
    output := mergeBlocks join.condition run.outerBlock
      (sortBlock join.condition.right block) }

/-- The next inner block is there. -/
theorem nextInner_of_take (join : Join) {u' : τ} {db' : Database}
    (htake : (inner.take join.innerCapacity).run (s.inner, db) =
      .ok (i.take join.innerCapacity) (u', db'))
    (hat : AtI u' (i.drop join.innerCapacity)) (h : Stands AtO AtI s run o i) :
    ∃ s', (nextInner join inner run).run (s, db) =
        .ok (join.merged run (i.take join.innerCapacity)) (s', db') ∧
      Stands AtO AtI s' (join.merged run (i.take join.innerCapacity)) o
        (i.drop join.innerCapacity) := by
  obtain ⟨t, u, run₀⟩ := s
  refine ⟨⟨t, u', some (join.merged run (i.take join.innerCapacity))⟩, ?_, rfl, h.outer, hat,
    h.outerDone, fun hdone => ?_⟩
  · simp only [nextInner, EStateM.run_bind, run_onInner_ok htake, run_setRun, EStateM.run_pure,
      length_sortBlock]
    rfl
  · have hshort : (i.take join.innerCapacity).length < join.innerCapacity :=
      of_decide_eq_true hdone
    rw [List.length_take] at hshort
    exact List.drop_eq_nil_of_le (by omega)

theorem nextInner_run (join : Join) (hi : inner.Replays Ok is AtI) (hok : Ok db)
    (h : Stands AtO AtI s run o i) :
    ∃ s' db', (nextInner join inner run).run (s, db) =
        .ok (join.merged run (i.take join.innerCapacity)) (s', db') ∧ Ok db' ∧
      Stands AtO AtI s' (join.merged run (i.take join.innerCapacity)) o
        (i.drop join.innerCapacity) := by
  obtain ⟨u', db', htake, hok', hat⟩ := hi.take join.innerCapacity hok h.inner
  obtain ⟨s', hrun, hstands⟩ := nextInner_of_take join htake hat h
  exact ⟨s', db', hrun, hok', hstands⟩

/-- Merging moves pairs from those to come to those that are merged. -/
theorem left_merged (hpos : 0 < join.innerCapacity) (houtput : run.output = []) :
    left join is (join.merged run (i.take join.innerCapacity)) o (i.drop join.innerCapacity) =
      left join is run o i := by
  rw [left, left, houtput, List.nil_append, blockRows_eq hpos run.outerBlock i, List.append_assoc]
  rfl

/-- A block that is full has a row. -/
theorem turns_merged (hpos : 0 < join.innerCapacity) :
    turns is (join.merged run (i.take join.innerCapacity)) o (i.drop join.innerCapacity) ≤
      i.length + o.length * (is.length + 1) := by
  refine Nat.add_le_add_right ?_ _
  split
  · exact Nat.zero_le _
  · rename_i hmore
    obtain ⟨-, hfull⟩ := Bool.or_eq_false_iff.mp (eq_false_of_ne_true hmore)
    have hfull' := of_decide_eq_false hfull
    rw [List.length_take] at hfull'
    rw [List.length_drop]
    omega

/-! ## 4. The next outer block -/

/-- After taking an outer block. -/
def entered (join : Join) (run : Run) (block : List Row) : Run :=
  { run with
    outerBlock := sortBlock join.condition.left block
    outerDone := decide (block.length < join.outerCapacity)
    innerDone := false }

/-- There are outer rows: a block of them is taken, and the inner rows are to come again. -/
theorem nextOuter_of_take (hpos : 0 < join.outerCapacity) {t' : σ} {u' : τ} {db₁ db₂ : Database}
    (htake : (outer.take join.outerCapacity).run (s.outer, db) =
      .ok (o.take join.outerCapacity) (t', db₁))
    (hato : AtO t' (o.drop join.outerCapacity))
    (hrewind : inner.rewind.run (s.inner, db₁) = .ok () (u', db₂)) (hati : AtI u' is)
    (h : Stands AtO AtI s run o i) (hne : o ≠ []) :
    ∃ s', (nextOuter join outer inner run).run (s, db) =
        .ok (some (join.entered run (o.take join.outerCapacity))) (s', db₂) ∧
      Stands AtO AtI s' (join.entered run (o.take join.outerCapacity))
        (o.drop join.outerCapacity) is := by
  obtain ⟨t, u, run₀⟩ := s
  have hmore : run.outerDone = false :=
    eq_false_of_ne_true fun hdone => hne (h.outerDone hdone)
  have hblock : (o.take join.outerCapacity).isEmpty = false := by
    rw [List.isEmpty_eq_false_iff, ne_eq, List.take_eq_nil_iff]
    exact not_or.mpr ⟨hpos.ne', hne⟩
  refine ⟨⟨t', u', some (join.entered run (o.take join.outerCapacity))⟩, ?_, rfl, hato, hati,
    fun hdone => ?_, fun hdone => ?_⟩
  · simp only [nextOuter, hmore, Bool.false_eq_true, if_false, EStateM.run_bind,
      run_onOuter_ok htake, hblock, run_setRun, run_onInner_ok hrewind, EStateM.run_pure]
    rfl
  · have hshort : (o.take join.outerCapacity).length < join.outerCapacity :=
      of_decide_eq_true hdone
    rw [List.length_take] at hshort
    exact List.drop_eq_nil_of_le (by omega)
  · cases hdone

theorem nextOuter_run (ho : outer.Replays Ok os AtO) (hi : inner.Replays Ok is AtI)
    (hpos : 0 < join.outerCapacity) (hok : Ok db) (h : Stands AtO AtI s run o i) (hne : o ≠ []) :
    ∃ s' db', (nextOuter join outer inner run).run (s, db) =
        .ok (some (join.entered run (o.take join.outerCapacity))) (s', db') ∧ Ok db' ∧
      Stands AtO AtI s' (join.entered run (o.take join.outerCapacity))
        (o.drop join.outerCapacity) is := by
  obtain ⟨t', db₁, htake, hok₁, hato⟩ := ho.take join.outerCapacity hok h.outer
  obtain ⟨u', db₂, hrewind, hok₂, hati⟩ := hi.rewind s.inner db₁ i hok₁ h.inner
  obtain ⟨s', hrun, hstands⟩ := nextOuter_of_take hpos htake hato hrewind hati h hne
  exact ⟨s', db₂, hrun, hok₂, hstands⟩

/-- Taking a block moves its pairs to those of the block at hand. -/
theorem left_entered (hpos : 0 < join.outerCapacity) (h : Stands AtO AtI s run o i)
    (hspent : spent run) :
    left join is (join.entered run (o.take join.outerCapacity)) (o.drop join.outerCapacity) is =
      left join is run o i := by
  rw [left, left, h.blockRows_of_spent hspent, List.nil_append, rows_eq hpos o is]
  rfl

/-- After finding no outer rows. -/
def exhausted (join : Join) (run : Run) : Run :=
  { run with outerBlock := [], outerDone := decide (0 < join.outerCapacity) }

theorem left_exhausted (houtput : run.output = []) :
    left join is (join.exhausted run) [] i = [] := by
  rw [left, exhausted, houtput, blockRows_nil_left, rows_nil_left]
  rfl

/-- The end was seen before. -/
theorem nextOuter_of_done (join : Join) (outer : RowStream σ) (inner : RowStream τ)
    (hdone : run.outerDone = true) (s : State σ τ) (db : Database) :
    (nextOuter join outer inner run).run (s, db) = .ok none (s, db) := by
  simp only [nextOuter, hdone, if_true, EStateM.run_pure]

/-- The end is seen now. -/
theorem nextOuter_of_take_nil (join : Join) (inner : RowStream τ) {t' : σ} {db' : Database}
    (hmore : run.outerDone = false)
    (htake : (outer.take join.outerCapacity).run (s.outer, db) = .ok [] (t', db'))
    (hat : AtO t' []) (h : Stands AtO AtI s run [] i) :
    ∃ s', (nextOuter join outer inner run).run (s, db) = .ok none (s', db') ∧
      Stands AtO AtI s' (join.exhausted run) [] i := by
  obtain ⟨t, u, run₀⟩ := s
  refine ⟨⟨t', u, some (join.exhausted run)⟩, ?_, rfl, hat, h.inner, fun _ => rfl, h.innerDone⟩
  simp only [nextOuter, hmore, Bool.false_eq_true, if_false, EStateM.run_bind,
    run_onOuter_ok htake, List.isEmpty_nil, if_true, run_setRun, EStateM.run_pure]
  rfl

/-- There are no more outer rows. -/
theorem nextOuter_end (join : Join) (inner : RowStream τ) (is : List Row)
    (ho : outer.Replays Ok os AtO) (hok : Ok db) (h : Stands AtO AtI s run [] i)
    (hspent : spent run) (houtput : run.output = []) :
    ∃ s' db', (nextOuter join outer inner run).run (s, db) = .ok none (s', db') ∧ Ok db' ∧
      At join AtO AtI is s' [] := by
  cases hdone : run.outerDone with
  | true =>
    exact ⟨s, db, nextOuter_of_done join outer inner hdone s db, hok, run, [], i, h,
      (h.left_eq_nil hspent houtput).symm⟩
  | false =>
    obtain ⟨t', db', htake, hok', hat⟩ := ho.take join.outerCapacity hok h.outer
    rw [List.take_nil] at htake
    rw [List.drop_nil] at hat
    obtain ⟨s', hrun, hstands⟩ := nextOuter_of_take_nil join inner hdone htake hat h
    exact ⟨s', db', hrun, hok', join.exhausted run, [], i, hstands, (left_exhausted houtput).symm⟩

/-- A block has a row, so that there are turns enough for all inner rows and the end of them. -/
theorem turns_entered (hpos : 0 < join.outerCapacity) (hne : o ≠ []) (hspent : spent run) :
    is.length + (o.drop join.outerCapacity).length * (is.length + 1) < turns is run o i := by
  have hlength := List.length_pos_of_ne_nil hne
  have hle : (o.drop join.outerCapacity).length + 1 ≤ o.length := by
    rw [List.length_drop]
    omega
  have hmul := Nat.mul_le_mul_right (is.length + 1) hle
  rw [turns, if_pos hspent, Nat.zero_add]
  rw [Nat.succ_mul] at hmul
  omega

/-! ## 5. The loop -/

/-- **The next pair is found**, or the end.  By induction on the fuel: each turn costs one. -/
theorem advance_run (ho : outer.Replays Ok os AtO) (hi : inner.Replays Ok is AtI)
    (hpo : 0 < join.outerCapacity) (hpi : 0 < join.innerCapacity) {fuel : Nat} (hok : Ok db)
    (h : Stands AtO AtI s run o i) (hfuel : turns is run o i < fuel) :
    ∃ s' db', (advance join outer inner fuel run).run (s, db) =
        .ok (left join is run o i).head? (s', db') ∧ Ok db' ∧
      At join AtO AtI is s' (left join is run o i).tail := by
  induction fuel generalizing s db run o i with
  | zero => omega
  | succ fuel ih =>
    cases houtput : run.output with
    | cons row rest =>
      refine ⟨⟨s.outer, s.inner, some { run with output := rest }⟩, db, ?_, hok,
        { run with output := rest }, o, i, ⟨rfl, h.outer, h.inner, h.outerDone, h.innerDone⟩, ?_⟩
      · simp only [advance, houtput, EStateM.run_bind, run_setRun, EStateM.run_pure]
        rw [left, houtput]
        rfl
      · rw [left, houtput]
        rfl
    | nil =>
      -- what follows once an inner block can be merged
      have hmerge : ∀ {s : State σ τ} {db : Database} {run : Run} {o i : List Row}, Ok db →
          Stands AtO AtI s run o i → run.output = [] →
          i.length + o.length * (is.length + 1) < fuel →
          ∃ s' db', (nextInner join inner run >>= advance join outer inner fuel).run (s, db) =
              .ok (left join is run o i).head? (s', db') ∧ Ok db' ∧
            At join AtO AtI is s' (left join is run o i).tail := by
        intro s db run o i hok h houtput hlt
        obtain ⟨s₁, db₁, hinner, hok₁, h₁⟩ := nextInner_run join hi hok h
        obtain ⟨s₂, db₂, hadvance, hend⟩ := ih hok₁ h₁ (Nat.lt_of_le_of_lt (turns_merged hpi) hlt)
        rw [left_merged hpi houtput] at hadvance hend
        refine ⟨s₂, db₂, ?_, hend⟩
        simp only [EStateM.run_bind, hinner, hadvance]
      by_cases hspent : spent run
      · have hspent' : (run.outerBlock.isEmpty || run.innerDone) = true := hspent
        by_cases hne : o = []
        · subst hne
          obtain ⟨s', db', houter, hend⟩ := nextOuter_end join inner is ho hok h hspent houtput
          rw [h.left_eq_nil hspent houtput]
          refine ⟨s', db', ?_, hend⟩
          simp only [advance, houtput, hspent', if_true, EStateM.run_bind, houter, EStateM.run_pure,
            List.head?_nil]
        · obtain ⟨s₁, db₁, houter, hok₁, h₁⟩ := nextOuter_run ho hi hpo hok h hne
          have hlt : is.length + (o.drop join.outerCapacity).length * (is.length + 1) < fuel :=
            Nat.lt_of_lt_of_le (turns_entered hpo hne hspent) (Nat.le_of_lt_succ hfuel)
          obtain ⟨s', db', hrun, hend⟩ := hmerge hok₁ h₁ houtput hlt
          rw [left_entered hpo h hspent] at hrun hend
          refine ⟨s', db', ?_, hend⟩
          rw [← hrun]
          simp only [advance, houtput, hspent', if_true, EStateM.run_bind, houter]
      · have hspent' : (run.outerBlock.isEmpty || run.innerDone) = false :=
          eq_false_of_ne_true hspent
        have hlt : i.length + o.length * (is.length + 1) < fuel := by
          rw [turns, if_neg hspent] at hfuel
          omega
        obtain ⟨s', db', hrun, hend⟩ := hmerge hok h houtput hlt
        refine ⟨s', db', ?_, hend⟩
        rw [← hrun]
        simp only [advance, houtput, hspent', Bool.false_eq_true, if_false]

/-- The turns of a join come with the bounds of its parts. -/
theorem turns_lt_fuel (hbo : o.length ≤ outer.bound s.outer db)
    (hbi : i.length ≤ inner.bound s.inner db) (hbis : is.length ≤ inner.bound s.inner db)
    (run : Run) : turns is run o i < fuel outer inner s db := by
  have hmul : o.length * (is.length + 1) ≤ outer.bound s.outer db * (inner.bound s.inner db + 1) :=
    Nat.mul_le_mul hbo (Nat.succ_le_succ hbis)
  have hfirst : (if spent run then 0 else i.length + 1) ≤ inner.bound s.inner db + 1 := by
    split <;> omega
  calc turns is run o i
      ≤ inner.bound s.inner db + 1 + outer.bound s.outer db * (inner.bound s.inner db + 1) :=
        Nat.add_le_add hfirst hmul
    _ = (outer.bound s.outer db + 1) * (inner.bound s.inner db + 1) := by
        rw [Nat.succ_mul, Nat.add_comm]
    _ < fuel outer inner s db := Nat.mul_lt_mul'' (Nat.lt_succ_self _) (Nat.lt_succ_self _)

/-- No more rows are left than the join says, nor come again when it is rewound. -/
theorem length_le_bound (hpo : 0 < join.outerCapacity) (hpi : 0 < join.innerCapacity)
    (ho : outer.Replays Ok os AtO) (hi : inner.Replays Ok is AtI) (hok : Ok db)
    (h : Stands AtO AtI s run o i) :
    (left join is run o i).length ≤ bound outer inner s db ∧
      (join.rows os is).length ≤ bound outer inner s db := by
  obtain ⟨hbo, hbos⟩ := ho.bound s.outer db o hok h.outer
  obtain ⟨hbi, hbis⟩ := hi.bound s.inner db i hok h.inner
  have hblock := Nat.le_trans (length_blockRows_le hpi run.outerBlock i)
    (Nat.mul_le_mul_right run.outerBlock.length hbi)
  have hrest := Nat.le_trans (length_rows_le hpo hpi o is) (Nat.mul_le_mul hbo hbis)
  have hall := Nat.le_trans (length_rows_le hpo hpi os is) (Nat.mul_le_mul hbos hbis)
  rw [bound, h.run_eq, left, List.length_append, List.length_append]
  dsimp only
  rw [Nat.add_mul, Nat.mul_comm run.outerBlock.length]
  omega

/-! ## 6. The join as a stream -/

/-- **A join of streams that replay lists** replays the rows of the join. -/
theorem replays (h : join.Accepts outer.schema inner.schema) (ho : outer.Replays Ok os AtO)
    (hi : inner.Replays Ok is AtI) :
    (stream join outer inner).Replays Ok (join.rows os is) (At join AtO AtI is) where
  schema row hrow := by
    have hmem := (rows_perm h ho.schema hi.schema).mem_iff.mp hrow
    obtain ⟨o, hmemo, hrow⟩ := List.mem_flatMap.mp hmem
    obtain ⟨i, hmemi, rfl⟩ := List.mem_map.mp hrow
    have hschema : (o ++ i).schema = o.schema ++ i.schema := rfl
    rw [hschema, ho.schema o hmemo, hi.schema i (List.mem_filter.mp hmemi).1]
    rfl
  start := by
    rintro ⟨t, u, run⟩ db hok
    obtain ⟨t', db₁, hstarto, hok₁, hato⟩ := ho.start t db hok
    obtain ⟨u', db₂, hstarti, hok₂, hati⟩ := hi.start u db₁ hok₁
    refine ⟨⟨t', u', some {}⟩, db₂, ?_, hok₂, at_first hato hati⟩
    change (start outer inner).run (⟨t, u, run⟩, db) = _
    simp only [start, EStateM.run_bind, run_onOuter_ok hstarto, run_onInner_ok hstarti, run_setRun]
  rewind := by
    rintro ⟨t, u, run₀⟩ db rest hok ⟨run, o, i, hstands, -⟩
    obtain rfl : run₀ = some run := hstands.run_eq
    obtain ⟨t', db', hrewind, hok', hat⟩ := ho.rewind t db o hok hstands.outer
    refine ⟨⟨t', u, some {}⟩, db', ?_, hok', at_first hat hstands.inner⟩
    change (rewind outer).run (⟨t, u, some run⟩, db) = _
    simp only [rewind, EStateM.run_bind, StreamM.run_getState, run_onOuter_ok hrewind, run_setRun]
  next := by
    rintro s db rest hok ⟨run, o, i, hstands, rfl⟩
    obtain ⟨hbo, -⟩ := ho.bound s.outer db o hok hstands.outer
    obtain ⟨hbi, hbis⟩ := hi.bound s.inner db i hok hstands.inner
    have hfuel := turns_lt_fuel hbo hbi hbis run
    obtain ⟨s', db', hadvance, hend⟩ := advance_run ho hi h.outer_pos h.inner_pos hok hstands hfuel
    refine ⟨s', db', ?_, hend⟩
    change (next join outer inner).run (s, db) = _
    simp only [next, EStateM.run_bind, EStateM.run_get, hstands.run_eq, hadvance]
  bound := by
    rintro s db rest hok ⟨run, o, i, hstands, rfl⟩
    exact length_le_bound h.outer_pos h.inner_pos ho hi hok hstands

/-! ## 7. The nested loop -/

/-- **A join is the nested loop.**  Opening a join that could be made, whatever its budget, and
emptying it gives the pairs of the two lists that satisfy the condition, each as often as it occurs.
The order of the lists does not matter. -/
theorem drain_perm_nestedLoop {condition : JoinCondition} {budget : Nat}
    (hmake : make condition outer.schema inner.schema budget = .ok join)
    (ho : outer.Replays Ok os AtO) (hi : inner.Replays Ok is AtI) (s : State σ τ)
    (db : Database) (hok : Ok db) :
    ∃ rows s' db', (stream join outer inner).drain.run (s, db) = .ok rows (s', db') ∧ Ok db' ∧
      ∀ os' is', os'.Perm os → is'.Perm is → rows.Perm (nestedLoop condition os' is') := by
  obtain ⟨rfl, haccepts⟩ := make_accepts hmake
  obtain ⟨s', db', hrun, hok', -⟩ := (replays haccepts ho hi).drain s hok
  refine ⟨join.rows os is, s', db', hrun, hok', fun os' is' hos his => ?_⟩
  exact (rows_perm haccepts ho.schema hi.schema).trans (nestedLoop_perm hos.symm his.symm)

/-- Blocks of one row, and a row that comes twice. -/
theorem drain_perm_nestedLoop_rowByRow :
    ∃ (schema : Schema) (one two : Row) (join : Join) (db : Database),
      one.values = [.int 1] ∧ two.values = [.int 2] ∧
      make ⟨0, .le, 0⟩ schema schema 4 = .ok join ∧ join.outerCapacity = 1 ∧
      ∃ rows s' db', (stream join (Listing.stream schema [two, one])
            (Listing.stream schema [one, two, one])).drain.run (⟨none, none, none⟩, db) =
          .ok rows (s', db') ∧
        rows.Perm [two ++ two, one ++ one, one ++ two, one ++ one] := by
  let schema : Schema := ⟨[⟨"n", .int⟩]⟩
  let one : Row := ⟨schema, [.int 1], none, rfl⟩
  let two : Row := ⟨schema, [.int 2], none, rfl⟩
  let db : Database := ⟨.empty, #[], .empty 8, ⟨Lru.empty 1, [], 0⟩⟩
  have hmake : make ⟨0, .le, 0⟩ schema schema 4 = .ok ⟨⟨0, .le, 0⟩, 1, 1⟩ := by cbv
  have houter : ∀ row ∈ [two, one], row.schema = schema := by decide
  have hinner : ∀ row ∈ [one, two, one], row.schema = schema := by decide
  obtain ⟨rows, s', db', hrun, -, hperm⟩ :=
    drain_perm_nestedLoop hmake (Listing.replays schema houter fun _ => True)
      (Listing.replays schema hinner fun _ => True) ⟨none, none, none⟩ db trivial
  have hloop : nestedLoop ⟨0, .le, 0⟩ [two, one] [one, two, one] =
      [two ++ two, one ++ one, one ++ two, one ++ one] := by decide +kernel
  refine ⟨schema, one, two, _, db, rfl, rfl, hmake, rfl, rows, s', db', hrun, ?_⟩
  rw [← hloop]
  exact hperm _ _ (.refl _) (.refl _)

end Join
end RowStore
