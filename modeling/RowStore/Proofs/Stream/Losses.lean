/-
# What a join loses when it fails

A join takes the rows of a block one after the other.  When the stream below fails half way, the call
on the join fails too, and the rows that were taken for the block are dropped: the next call fills
the block anew, from where the stream below stands.  So the pairs of the dropped rows do not come.
All other pairs do, as the rest of what a join has at hand survives the error.

The account is kept in what the join has left (`Join.left`).  A turn of the loop that succeeds leaves
it as it is; one that fails takes away the pairs of the rows that are dropped.  These are fewer than
a block holds, so that no error costs more than `Join.mostLost` pairs, and with blocks of one row
none at all.

* `Join.loses`: what comes of a call on a join of streams that resume.
-/
import RowStore.Proofs.Stream.Calls
import RowStore.Proofs.Stream.Resuming

namespace RowStore

/-! ## 1. Streams that lose rows -/

namespace RowStream

variable {σ : Type}

/-- What comes of asking a stream for a row that has `rest` left: it hands out the first of these, or
fails and loses some of them, in all no more than the cost. -/
inductive Answered (Ok : Database → Prop) (At : σ → List Row → Prop) (cost : Nat)
    (rest : List Row) : EStateM.Result Error (σ × Database) (Option Row) → Prop
  | ok {state : σ} {db : Database} (hok : Ok db) (hat : At state rest.tail) :
      Answered Ok At cost rest (.ok rest.head? (state, db))
  | failed {left lost : List Row} {e : Error} {state : σ} {db : Database}
      (hrest : rest.Perm (left ++ lost)) (hlost : lost.length ≤ cost) (hok : Ok db)
      (hat : At state left) : Answered Ok At cost rest (.error e (state, db))

/-- The stream can be started to hand out the rows, and no error costs more than so many of them. -/
structure Loses (s : RowStream σ) (Ok : Database → Prop) (rows : List Row)
    (At : σ → List Row → Prop) (cost : Nat) : Prop where
  start : ∀ state db, Ok db → ∃ state' db',
    s.start.run (state, db) = .ok () (state', db') ∧ Ok db' ∧ At state' rows
  next : ∀ state db rest, Ok db → At state rest → Answered Ok At cost rest (s.next.run (state, db))

end RowStream

namespace Join

open RowStream (Taken Answered)

variable {σ τ : Type} {join : Join} {outer : RowStream σ} {inner : RowStream τ}
  {Ok : Database → Prop} {os is : List Row} {AtO : σ → List Row → Prop}
  {AtI : τ → List Row → Prop} {s : State σ τ} {db : Database} {run : Run} {o i gone : List Row}

/-! ## 2. Pairs that are missing -/

/-- The most pairs that one error costs: those that the rows of an outer block have with all inner
rows, or those that the rows of an inner block have with an outer block, where the block that was
being filled lacks a row. -/
def mostLost (join : Join) (inner : Nat) : Nat :=
  max ((join.outerCapacity - 1) * inner) (join.outerCapacity * (join.innerCapacity - 1))

theorem length_nestedLoop_le (c : JoinCondition) (os is : List Row) :
    (nestedLoop c os is).length ≤ os.length * is.length := by
  induction os with
  | nil => exact Nat.zero_le _
  | cons o os ih =>
    have hfilter := List.length_filter_le (c.holds o) is
    rw [nestedLoop, List.flatMap_cons, List.length_append, List.length_map, List.length_cons,
      Nat.succ_mul, Nat.add_comm]
    exact Nat.add_le_add ih hfilter

/-- Inner rows that are dropped take their pairs with the block along. -/
theorem blockRows_append_perm (h : join.Accepts outer.schema inner.schema) {block : List Row}
    (hb : ∀ row ∈ block, row.schema = outer.schema)
    (hi : ∀ row ∈ gone ++ i, row.schema = inner.schema) :
    (join.blockRows (sortBlock join.condition.left block) (gone ++ i)).Perm
      (join.blockRows (sortBlock join.condition.left block) i ++
        nestedLoop join.condition block gone) := by
  have hall := blockRows_perm h hb hi
  have hrest := blockRows_perm h hb fun row hrow => hi row (List.mem_append_right _ hrow)
  have hsplit := nestedLoop_append_right join.condition block gone i
  exact (hall.trans (hsplit.trans List.perm_append_comm)).trans (hrest.symm.append_right _)

/-- Outer rows that are dropped take their pairs with all inner rows along. -/
theorem rows_append_perm (h : join.Accepts outer.schema inner.schema)
    (ho : ∀ row ∈ gone ++ o, row.schema = outer.schema)
    (hi : ∀ row ∈ is, row.schema = inner.schema) :
    (join.rows (gone ++ o) is).Perm (join.rows o is ++ nestedLoop join.condition gone is) := by
  have hall := rows_perm h ho hi
  have hrest := rows_perm h (fun row hrow => ho row (List.mem_append_right _ hrow)) hi
  rw [nestedLoop_append_left] at hall
  exact (hall.trans List.perm_append_comm).trans (hrest.symm.append_right _)

/-- The block at hand is one of outer rows, sorted, and fits into its memory. -/
def Blocked (join : Join) (schema : Schema) (run : Run) : Prop :=
  ∃ block, run.outerBlock = sortBlock join.condition.left block ∧
    block.length ≤ join.outerCapacity ∧ ∀ row ∈ block, row.schema = schema

theorem blocked_of_nil {schema : Schema} (hblock : run.outerBlock = []) :
    join.Blocked schema run := by
  refine ⟨[], ?_, Nat.zero_le _, fun row hrow => absurd hrow List.not_mem_nil⟩
  rw [hblock, sortBlock]
  rfl

theorem blocked_entered {schema : Schema} (ho : ∀ row ∈ o, row.schema = schema) :
    join.Blocked schema (join.entered run (o.take join.outerCapacity)) :=
  ⟨o.take join.outerCapacity, rfl, List.length_take_le _ _,
    fun row hrow => ho row (List.mem_of_mem_take hrow)⟩

/-- What a join has left without some of the inner rows. -/
theorem left_perm_inner (h : join.Accepts outer.schema inner.schema)
    (hblock : join.Blocked outer.schema run) (hi : ∀ row ∈ gone ++ i, row.schema = inner.schema)
    (hgone : gone.length < join.innerCapacity) (is o : List Row) :
    ∃ lost, (left join is run o (gone ++ i)).Perm (left join is run o i ++ lost) ∧
      lost.length ≤ join.mostLost is.length := by
  obtain ⟨block, hsorted, hlength, hb⟩ := hblock
  refine ⟨nestedLoop join.condition block gone, ?_, ?_⟩
  · have hdropped := (blockRows_append_perm h hb hi).append_right (join.rows o is)
    rw [List.append_assoc] at hdropped
    rw [left, left, hsorted, List.append_assoc, List.append_assoc]
    exact (hdropped.trans (List.perm_append_comm.append_left _)).append_left _
  · have hle := length_nestedLoop_le join.condition block gone
    have hmul := Nat.mul_le_mul hlength (Nat.le_sub_one_of_lt hgone)
    exact (hle.trans hmul).trans (Nat.le_max_right _ _)

/-- What a join has left without some of the outer rows. -/
theorem left_perm_outer (h : join.Accepts outer.schema inner.schema)
    (ho : ∀ row ∈ gone ++ o, row.schema = outer.schema)
    (hi : ∀ row ∈ is, row.schema = inner.schema) (hgone : gone.length < join.outerCapacity)
    (run : Run) (i : List Row) :
    ∃ lost, (left join is run (gone ++ o) i).Perm (left join is run o i ++ lost) ∧
      lost.length ≤ join.mostLost is.length := by
  refine ⟨nestedLoop join.condition gone is, ?_, ?_⟩
  · rw [left, left, List.append_assoc, List.append_assoc]
    exact ((rows_append_perm h ho hi).append_left _).append_left _
  · have hle := length_nestedLoop_le join.condition gone is
    have hmul := Nat.mul_le_mul_right is.length (Nat.le_sub_one_of_lt hgone)
    exact (hle.trans hmul).trans (Nat.le_max_left _ _)

/-! ## 3. One turn -/

/-- What comes of taking the next inner block: it is merged, or rows for it are dropped. -/
inductive InnerTurn (join : Join) (Ok : Database → Prop) (AtO : σ → List Row → Prop)
    (AtI : τ → List Row → Prop) (run : Run) (o i : List Row) :
    EStateM.Result Error (State σ τ × Database) Run → Prop
  | merged {s : State σ τ} {db : Database} (hok : Ok db)
      (hs : Stands AtO AtI s (join.merged run (i.take join.innerCapacity)) o
        (i.drop join.innerCapacity)) :
      InnerTurn join Ok AtO AtI run o i
        (.ok (join.merged run (i.take join.innerCapacity)) (s, db))
  | failed {gone rest : List Row} {e : Error} {s : State σ τ} {db : Database}
      (hrest : i = gone ++ rest) (hgone : gone.length < join.innerCapacity) (hok : Ok db)
      (hs : Stands AtO AtI s run o rest) : InnerTurn join Ok AtO AtI run o i (.error e (s, db))

/-- What comes of taking the next outer block. -/
inductive OuterTurn (join : Join) (Ok : Database → Prop) (AtO : σ → List Row → Prop)
    (AtI : τ → List Row → Prop) (is : List Row) (run : Run) (o i : List Row) :
    EStateM.Result Error (State σ τ × Database) (Option Run) → Prop
  | entered {s : State σ τ} {db : Database} (hne : o ≠ []) (hok : Ok db)
      (hs : Stands AtO AtI s (join.entered run (o.take join.outerCapacity))
        (o.drop join.outerCapacity) is) :
      OuterTurn join Ok AtO AtI is run o i
        (.ok (some (join.entered run (o.take join.outerCapacity))) (s, db))
  | ended {run' : Run} {s : State σ τ} {db : Database} (hnil : o = [])
      (hrun : run' = run ∨ run' = join.exhausted run) (hok : Ok db)
      (hs : Stands AtO AtI s run' [] i) : OuterTurn join Ok AtO AtI is run o i (.ok none (s, db))
  | failed {gone rest : List Row} {e : Error} {s : State σ τ} {db : Database}
      (hrest : o = gone ++ rest) (hgone : gone.length < join.outerCapacity) (hok : Ok db)
      (hs : Stands AtO AtI s run rest i) :
      OuterTurn join Ok AtO AtI is run o i (.error e (s, db))

theorem nextInner_turn (join : Join) (hi : inner.Resumes Ok is AtI) (hok : Ok db)
    (hs : Stands AtO AtI s run o i) :
    InnerTurn join Ok AtO AtI run o i ((nextInner join inner run).run (s, db)) := by
  have htake := hi.take join.innerCapacity hok hs.inner
  generalize hr : (inner.take join.innerCapacity).run (s.inner, db) = r at htake
  cases htake with
  | ok hok' hat =>
    obtain ⟨s', hrun, hs'⟩ := nextInner_of_take join hr hat hs
    rw [hrun]
    exact .merged hok' hs'
  | @failed gone rest e u' db' hrest hgone hok' hat =>
    have herror : (onInner (inner.take join.innerCapacity)).run (s, db) =
        .error e ({ s with inner := u' }, db') := StreamM.run_onPart_error hr
    simp only [nextInner, EStateM.run_bind, herror]
    refine .failed hrest hgone hok' ⟨hs.run_eq, hs.outer, hat, hs.outerDone, ?_⟩
    intro hdone
    exact (List.append_eq_nil_iff.mp (hrest.symm.trans (hs.innerDone hdone))).2

theorem nextOuter_turn (hpos : 0 < join.outerCapacity) (ho : outer.Resumes Ok os AtO)
    (hi : inner.Resumes Ok is AtI) (hok : Ok db) (hs : Stands AtO AtI s run o i) :
    OuterTurn join Ok AtO AtI is run o i ((nextOuter join outer inner run).run (s, db)) := by
  cases hdone : run.outerDone with
  | true =>
    obtain rfl : o = [] := hs.outerDone hdone
    rw [nextOuter_of_done join outer inner hdone s db]
    exact .ended rfl (.inl rfl) hok hs
  | false =>
    have htake := ho.take join.outerCapacity hok hs.outer
    generalize hr : (outer.take join.outerCapacity).run (s.outer, db) = r at htake
    cases htake with
    | @ok t' db₁ hok₁ hat =>
      by_cases hne : o = []
      · subst hne
        rw [List.take_nil] at hr
        rw [List.drop_nil] at hat
        obtain ⟨s', hrun, hs'⟩ := nextOuter_of_take_nil join inner hdone hr hat hs
        rw [hrun]
        exact .ended rfl (.inr rfl) hok₁ hs'
      · obtain ⟨u', db₂, hrewind, hok₂, hati⟩ := hi.rewind s.inner db₁ i hok₁ hs.inner
        obtain ⟨s', hrun, hs'⟩ := nextOuter_of_take hpos hr hat hrewind hati hs hne
        rw [hrun]
        exact .entered hne hok₂ hs'
    | @failed gone rest e t' db' hrest hgone hok' hat =>
      have herror : (onOuter (outer.take join.outerCapacity)).run (s, db) =
          .error e ({ s with outer := t' }, db') := StreamM.run_onPart_error hr
      simp only [nextOuter, hdone, Bool.false_eq_true, if_false, EStateM.run_bind, herror]
      refine .failed hrest hgone hok' ⟨hs.run_eq, hat, hs.inner, ?_, hs.innerDone⟩
      intro hyes
      cases hdone.symm.trans hyes

/-! ## 4. The loop -/

/-- The join has `rest` left to hand out, and its outer block is in order. -/
def Holds (join : Join) (AtO : σ → List Row → Prop) (AtI : τ → List Row → Prop) (schema : Schema)
    (is : List Row) (s : State σ τ) (rest : List Row) : Prop :=
  ∃ run o i, Stands AtO AtI s run o i ∧ join.Blocked schema run ∧ rest = left join is run o i

section

variable (h : join.Accepts outer.schema inner.schema) (ho : outer.Resumes Ok os AtO)
  (hi : inner.Resumes Ok is AtI)

include h ho hi

/-- **The next pair is found**, or the end, or an error stops the loop.  By induction on the fuel:
the turns before the last one leave what is left as it is. -/
theorem advance_answered {fuel : Nat} (hok : Ok db) (hs : Stands AtO AtI s run o i)
    (hblock : join.Blocked outer.schema run) (hfuel : turns is run o i < fuel) :
    Answered Ok (join.Holds AtO AtI outer.schema is) (join.mostLost is.length)
      (left join is run o i) ((advance join outer inner fuel run).run (s, db)) := by
  induction fuel generalizing s db run o i with
  | zero => omega
  | succ fuel ih =>
    cases houtput : run.output with
    | cons row rest =>
      have hleft : left join is run o i =
          row :: left join is { run with output := rest } o i := by
        rw [left, houtput]
        rfl
      simp only [advance, houtput, EStateM.run_bind, run_setRun, EStateM.run_pure]
      rw [hleft]
      exact .ok hok ⟨{ run with output := rest }, o, i,
        ⟨rfl, hs.outer, hs.inner, hs.outerDone, hs.innerDone⟩, hblock, rfl⟩
    | nil =>
      -- what follows once an inner block is to be merged
      have hmerge : ∀ {s : State σ τ} {db : Database} {run : Run} {o i : List Row}, Ok db →
          Stands AtO AtI s run o i → join.Blocked outer.schema run → run.output = [] →
          i.length + o.length * (is.length + 1) < fuel →
          Answered Ok (join.Holds AtO AtI outer.schema is) (join.mostLost is.length)
            (left join is run o i)
            ((nextInner join inner run >>= advance join outer inner fuel).run (s, db)) := by
        intro s db run o i hok hs hblock houtput hlt
        have hturn := nextInner_turn join hi hok hs
        rw [EStateM.run_bind]
        generalize (nextInner join inner run).run (s, db) = r at hturn
        cases hturn with
        | merged hok' hs' =>
          have hrest := ih hok' hs' hblock (Nat.lt_of_le_of_lt (turns_merged h.inner_pos) hlt)
          rwa [left_merged h.inner_pos houtput] at hrest
        | failed hrest hgone hok' hs' =>
          subst hrest
          obtain ⟨lost, hperm, hlost⟩ := left_perm_inner h hblock (hi.schema_of_at hs.inner) hgone
            is o
          exact .failed hperm hlost hok' ⟨run, o, _, hs', hblock, rfl⟩
      by_cases hspent : spent run
      · have hspent' : (run.outerBlock.isEmpty || run.innerDone) = true := hspent
        have hturn := nextOuter_turn h.outer_pos ho hi hok hs
        simp only [advance, houtput, hspent', if_true, EStateM.run_bind]
        generalize (nextOuter join outer inner run).run (s, db) = r at hturn
        cases hturn with
        | entered hne hok' hs' =>
          have hlt := Nat.lt_of_lt_of_le (turns_entered h.outer_pos hne hspent)
            (Nat.le_of_lt_succ hfuel)
          have hrest := hmerge hok' hs' (blocked_entered (ho.schema_of_at hs.outer)) houtput hlt
          rwa [left_entered h.outer_pos hs hspent, EStateM.run_bind] at hrest
        | @ended run' s' db' hnil hrun hok' hs' =>
          subst hnil
          rw [hs.left_eq_nil hspent houtput]
          have hends : join.Blocked outer.schema run' ∧ left join is run' [] i = [] := by
            rcases hrun with rfl | rfl
            · exact ⟨hblock, hs.left_eq_nil hspent houtput⟩
            · exact ⟨blocked_of_nil rfl, left_exhausted houtput⟩
          exact .ok hok' ⟨run', [], i, hs', hends.1, hends.2.symm⟩
        | failed hrest hgone hok' hs' =>
          subst hrest
          obtain ⟨lost, hperm, hlost⟩ := left_perm_outer h (ho.schema_of_at hs.outer) hi.schema
            hgone run i
          exact .failed hperm hlost hok' ⟨run, _, i, hs', hblock, rfl⟩
      · have hspent' : (run.outerBlock.isEmpty || run.innerDone) = false :=
          eq_false_of_ne_true hspent
        have hlt : i.length + o.length * (is.length + 1) < fuel := by
          rw [turns, if_neg hspent] at hfuel
          omega
        have hrest := hmerge hok hs hblock houtput hlt
        simp only [advance, houtput, hspent', Bool.false_eq_true, if_false]
        exact hrest

/-- **A join of streams that resume** loses no more than `mostLost` pairs with one error, and none
without one. -/
theorem loses :
    (stream join outer inner).Loses Ok (join.rows os is) (join.Holds AtO AtI outer.schema is)
      (join.mostLost is.length) where
  start := by
    rintro ⟨t, u, run⟩ db hok
    obtain ⟨t', db₁, hstarto, hok₁, hato⟩ := ho.start t db hok
    obtain ⟨u', db₂, hstarti, hok₂, hati⟩ := hi.start u db₁ hok₁
    refine ⟨⟨t', u', some {}⟩, db₂, ?_, hok₂, {}, os, is, stands_first hato hati,
      blocked_of_nil rfl, (left_first join is os is).symm⟩
    change (start outer inner).run (⟨t, u, run⟩, db) = _
    simp only [start, EStateM.run_bind, run_onOuter_ok hstarto, run_onInner_ok hstarti, run_setRun]
  next := by
    rintro s db rest hok ⟨run, o, i, hs, hblock, rfl⟩
    have hbo := (ho.suffix s.outer o hs.outer).length_le.trans (ho.bound s.outer db o hok hs.outer)
    have hbis := hi.bound s.inner db i hok hs.inner
    have hbi := (hi.suffix s.inner i hs.inner).length_le.trans hbis
    have hfuel := turns_lt_fuel hbo hbi hbis run
    have hadvance := advance_answered h ho hi hok hs hblock hfuel
    change Answered _ _ _ _ ((next join outer inner).run (s, db))
    simp only [next, EStateM.run_bind, EStateM.run_get, hs.run_eq]
    exact hadvance

end

end Join
end RowStore
