/-
# Streams yield rows of their schemas

A row comes to a stream by one of four ways: it was in a list that was checked, it was read from a
page, it was put together from two rows, or it was made of a sum.  In each of them it has the schema
of the stream that yields it, if the rows below have theirs.  `RowStream.Yields` says so of every
call on a stream, in every state that the stream can be in, and whether the calls succeed or fail
half way; what must hold of the states is that the rows in them have their schemas too.

The condition on the database is a parameter, as it is only looked at by scans.

* `Row.Conforms` is what it means for a row to be one of a schema, and what follows for storing it;
* `Join.Accepts.comparable`: the fields that a join compares, on either side or across, compare.
-/
import RowStore.Proofs.Database.Parts
import RowStore.Proofs.Stream.Calls

namespace RowStore

/-! ## 1. Rows of a schema -/

/-- The row is one of the schema: it has that schema, and one value of the right kind for each
column.  So it can be stored: it takes the width of the schema, and each field is written. -/
structure Row.Conforms (schema : Schema) (row : Row) : Prop where
  schema_eq : row.schema = schema
  length_eq : row.values.length = schema.columns.length
  number : ∀ (field : Nat) (name : String), schema.column? field = some ⟨name, .int⟩ →
    ∃ n, row.value? field = some (.int n)
  /-- A text has no more bytes than its column. -/
  text : ∀ (field : Nat) (name : String) (limit : UInt16),
    schema.column? field = some ⟨name, .text limit⟩ →
      ∃ content, row.value? field = some (.text content) ∧ Utf8.size content ≤ limit.toNat
  width : row.encode.length = schema.width
  written : ∀ (field : Nat) (column : Column) (v : Value), schema.column? field = some column →
    row.value? field = some v → (v.encode? column.type).isSome

theorem Schema.length_of_admits_go {columns : List Column} {values : List Value}
    (h : admits.go columns values) : values.length = columns.length := by
  fun_induction admits.go columns values with
  | case1 => rfl
  | case2 c columns v values ih =>
    rw [Bool.and_eq_true] at h
    exact congrArg (· + 1) (ih h.2)
  | case3 => cases h

/-- **A row of a schema conforms to it.** -/
theorem Row.conforms_of_eq {schema : Schema} {row : Row} (h : row.schema = schema) :
    row.Conforms schema := by
  subst h
  have hvalue : ∀ {field : Nat} {column : Column}, row.schema.column? field = some column →
      ∃ v, row.value? field = some v ∧ v.fits column.type :=
    fun hc => Schema.admits_go_getElem? row.fits hc
  refine ⟨rfl, Schema.length_of_admits_go row.fits, ?_, ?_, row.length_encode, ?_⟩
  · intro field name hc
    obtain ⟨v, hv, hfits⟩ := hvalue hc
    cases v with
    | int n => exact ⟨n, hv⟩
    | text content => cases hfits
  · intro field name limit hc
    obtain ⟨v, hv, hfits⟩ := hvalue hc
    cases v with
    | int n => cases hfits
    | text content => exact ⟨content, hv, of_decide_eq_true hfits⟩
  · intro field column v hc hv
    obtain ⟨v', hv', hfits⟩ := hvalue hc
    obtain rfl : v = v' := Option.some.inj (hv.symm.trans hv')
    rw [Value.isSome_encode?, hfits]

/-- The two rows have values in the fields, and the values are of one kind, so that they
compare. -/
def Row.Comparable (l : Row) (lf : Nat) (r : Row) (rf : Nat) : Prop :=
  ∃ a b, l.value? lf = some a ∧ r.value? rf = some b ∧ (a.compare? b).isSome

theorem Row.comparable_of_hasKey {rank lf rf : Nat} {l r : Row} (hl : HasKey rank lf l)
    (hr : HasKey rank rf r) : l.Comparable lf r rf := by
  obtain ⟨hvl, hkl⟩ := hl.value?
  obtain ⟨hvr, hkr⟩ := hr.value?
  refine ⟨_, _, hvl, hvr, ?_⟩
  rw [Value.compare?_eq (hkl.trans hkr.symm), Option.isSome_some]

/-- **What a join compares** is of one kind: two rows of its outer side when it sorts them, two of
its inner side, and one of each when it merges them. -/
theorem Join.Accepts.comparable {j : Join} {outer inner : Schema} (h : j.Accepts outer inner)
    {l l' r r' : Row} (hl : l.schema = outer) (hl' : l'.schema = outer) (hr : r.schema = inner)
    (hr' : r'.schema = inner) :
    l.Comparable j.condition.left l' j.condition.left ∧
      r.Comparable j.condition.right r' j.condition.right ∧
        l.Comparable j.condition.left r j.condition.right := by
  obtain ⟨cl, cr, hcl, hcr, hkinds⟩ := h.columns
  have hrank := DataType.rank_eq hkinds
  have hkl : ∀ {row : Row}, row.schema = outer → HasKey cl.type.rank j.condition.left row :=
    fun hrow => Row.hasKey (by rwa [hrow])
  have hkr : ∀ {row : Row}, row.schema = inner → HasKey cr.type.rank j.condition.right row :=
    fun hrow => Row.hasKey (by rwa [hrow])
  exact ⟨Row.comparable_of_hasKey (hkl hl) (hkl hl'), Row.comparable_of_hasKey (hkr hr) (hkr hr'),
    Row.comparable_of_hasKey (hkl hl) (hrank ▸ hkr hr)⟩

/-! ## 2. What a stream yields -/

/-- All of the rows have the schema. -/
abbrev Of (schema : Schema) (rows : List Row) : Prop := ∀ row ∈ rows, row.schema = schema

theorem Of.nil (schema : Schema) : Of schema [] := fun _ hrow => absurd hrow List.not_mem_nil

theorem Of.cons {schema : Schema} {row : Row} {rows : List Row} (hrow : row.schema = schema)
    (hrows : Of schema rows) : Of schema (row :: rows) := by
  rintro _ (_ | ⟨_, hmem⟩)
  · exact hrow
  · exact hrows _ hmem

namespace RowStream

open StreamM (Both)

variable {σ : Type}

/-- Every call keeps the database and the state of the stream as they should be, and a row that is
yielded has the schema of the stream. -/
structure Yields (s : RowStream σ) (Fit : σ → Prop) (Inv : Database → Prop) : Prop where
  start : Upholds (Both Fit Inv) Any s.start
  next : Upholds (Both Fit Inv) (fun row? => Of s.schema row?.toList) s.next
  rewind : Upholds (Both Fit Inv) Any s.rewind
  close : ∀ state, Fit state → Fit (s.close state)

namespace Yields

variable {s : RowStream σ} {Fit : σ → Prop} {Inv : Database → Prop}

theorem take (h : s.Yields Fit Inv) (count : Nat) :
    Upholds (Both Fit Inv) (Of s.schema) (s.take count) := by
  induction count with
  | zero => exact .pure (.nil _)
  | succ count ih =>
    refine .bind h.next fun row? hrow? => ?_
    cases row? with
    | none => exact .pure (.nil _)
    | some row =>
      refine .bind ih fun rows hrows => .pure ?_
      exact .cons (hrow? row List.mem_cons_self) hrows

theorem collect (h : s.Yields Fit Inv) : Upholds (Both Fit Inv) (Of s.schema) s.collect :=
  .bind .get fun (_, _) _ => h.take _

theorem drain (h : s.Yields Fit Inv) : Upholds (Both Fit Inv) (Of s.schema) s.drain :=
  .bind h.start fun _ _ => h.collect

theorem foldUpTo {β : Type} (h : s.Yields Fit Inv) (step : β → Row → Except Error β) (count : Nat)
    (result : β) : Upholds (Both Fit Inv) Any (s.foldUpTo step count result) := by
  induction count generalizing result with
  | zero => exact .pure trivial
  | succ count ih =>
    refine .bind h.next fun row? _ => ?_
    cases row? with
    | none => exact .pure trivial
    | some row =>
      refine .bind (StreamM.onDatabase_upholds (Database.attempt_upholds _)) fun result _ => ?_
      exact ih result

theorem fold {β : Type} (h : s.Yields Fit Inv) (step : β → Row → Except Error β) (result : β) :
    Upholds (Both Fit Inv) Any (s.fold step result) :=
  .bind .get fun (_, _) _ => h.foldUpTo step _ result

/-- **Any call** leaves the database and the state as they should be, and a row that it brings has
the schema of the stream. -/
theorem call (h : s.Yields Fit Inv) {state : σ} {db : Database} (hfit : Fit state) (hdb : Inv db)
    (call : Call) :
    Both Fit Inv (s.call state db call).2 ∧
      ∀ row, (s.call state db call).1 = .row (some row) → row.schema = s.schema := by
  have hdone : ∀ {x : StreamM σ Unit}, Upholds (Both Fit Inv) Any x →
      Both Fit Inv (replied (fun _ => .done) (x.run (state, db))).2 ∧
        ∀ row, (replied (fun _ => .done) (x.run (state, db))).1 = .row (some row) →
          row.schema = s.schema := by
    intro x hx
    have hend := hx (state, db) ⟨hfit, hdb⟩
    generalize x.run (state, db) = r at hend
    cases r with
    | error e s' => exact ⟨hend, fun row hrow => by cases hrow⟩
    | ok a s' => exact ⟨hend.1, fun row hrow => by cases hrow⟩
  cases call with
  | start => exact hdone h.start
  | rewind => exact hdone h.rewind
  | close => exact ⟨⟨h.close state hfit, hdb⟩, fun row hrow => by cases hrow⟩
  | next =>
    have hend := h.next (state, db) ⟨hfit, hdb⟩
    change Both Fit Inv (replied .row (s.next.run (state, db))).2 ∧
      ∀ row, (replied .row (s.next.run (state, db))).1 = .row (some row) → row.schema = s.schema
    generalize s.next.run (state, db) = r at hend
    cases r with
    | error e s' => exact ⟨hend, fun row hrow => by cases hrow⟩
    | ok row? s' =>
      refine ⟨hend.1, ?_⟩
      rintro row ⟨⟩
      exact hend.2 row List.mem_cons_self

end Yields

end RowStream

/-! ## 3. Lists and tables -/

section Leaves

variable {Inv : Database → Prop}

/-- What is left of a list is part of it. -/
theorem Listing.yields {schema : Schema} {rows : List Row} (hrows : Of schema rows) :
    (Listing.stream schema rows).Yields (fun state => Of schema (state.getD [])) Inv where
  start := StreamM.setState_upholds hrows
  next := by
    refine .bind StreamM.getState_upholds fun state hfit => ?_
    match state with
    | none => exact .throw _
    | some [] => exact .pure (.nil _)
    | some (row :: rest) =>
      have hrest : Of schema rest := fun r hr => hfit r (List.mem_cons_of_mem row hr)
      refine .bind (StreamM.setState_upholds hrest) fun _ _ => .pure ?_
      exact .cons (hfit row List.mem_cons_self) (.nil _)
  rewind := by
    refine .bind StreamM.getState_upholds fun state _ => ?_
    cases state with
    | none => exact .throw _
    | some _ => exact StreamM.setState_upholds hrows
  close _ _ := .nil _

namespace Scan

/-- The rows that are left of the current page have the schema. -/
def Fit (schema : Schema) (state : State) : Prop :=
  ∀ cursor, state = some cursor → Of schema cursor.rows

variable {db₀ : Database} {id : TableId} {ref : TableRef} {layout : Layout}

section Journals

variable {Inv : Journal → Database → Prop} {Found : PageId → Page → Prop}

theorem advance_upholds (h : db₀.Parts Inv Found) (href : db₀.ref? id = some ref)
    (hlayout : db₀.layout? id = some layout) (fuel : Nat) {cursor : Cursor}
    (hcursor : Of layout.schema cursor.rows) :
    Journaled.Upholds (fun journal => StreamM.Both (Fit layout.schema) (Inv journal))
      (fun row? => Of layout.schema row?.toList) (Journaled.advance ref fuel cursor) := by
  induction fuel generalizing cursor with
  | zero => exact .pure (.nil _)
  | succ fuel ih =>
    unfold Journaled.advance
    cases hrows : cursor.rows with
    | cons row rest =>
      rw [hrows] at hcursor
      have hrest : Fit layout.schema (some { cursor with rows := rest }) := by
        rintro _ ⟨⟩
        exact fun r hr => hcursor r (List.mem_cons_of_mem row hr)
      refine .bind (.quietly fun _ => StreamM.setState_upholds hrest) fun _ _ => .pure ?_
      exact .cons (hcursor row List.mem_cons_self) (.nil _)
    | nil =>
      refine .bind (.quietly fun journal => StreamM.onDatabase_upholds (h.file href journal)) ?_
      intro f hf
      split
      · exact .pure (.nil _)
      · refine .bind (Journaled.onDatabase_upholds (h.fetch _)) fun frame hframe => ?_
        have hpage : frame.page.layout = layout := by
          have hsuits := hframe.layout
          rw [hf.1, hlayout] at hsuits
          exact (Option.some.inj hsuits).symm
        have hloaded : Of layout.schema frame.page.rows := by
          intro row hrow
          rw [hframe.mem_rows hrow, hpage]
        have hfit : Fit layout.schema (some ⟨cursor.nextPage + 1, frame.page.rows⟩) := by
          rintro _ ⟨⟩
          exact hloaded
        exact .bind (.quietly fun _ => StreamM.setState_upholds hfit) fun _ _ => ih hloaded

theorem next_upholds (h : db₀.Parts Inv Found) (href : db₀.ref? id = some ref)
    (hlayout : db₀.layout? id = some layout) :
    Journaled.Upholds (fun journal => StreamM.Both (Fit layout.schema) (Inv journal))
      (fun row? => Of layout.schema row?.toList) (Journaled.next ref) := by
  refine .bind (.quietly fun _ => StreamM.getState_upholds) fun state hfit => ?_
  cases state with
  | none => exact .throw _
  | some cursor =>
    refine .bind (.quietly fun _ => StreamM.getDatabase_upholds.any) fun _ _ => ?_
    exact advance_upholds h href hlayout _ (hfit cursor rfl)

end Journals

/-- Before the first page there are no rows left. -/
theorem start_upholds {Inv : Database → Prop} (ref : TableRef) (schema : Schema) :
    Upholds (StreamM.Both (Fit schema) Inv) Any (stream ref schema).start := by
  refine StreamM.setState_upholds ?_
  rintro _ ⟨⟩
  exact .nil _

/-- A scan yields rows of its table's schema, whatever the file holds. -/
theorem yields (href : db₀.ref? id = some ref) (hlayout : db₀.layout? id = some layout) :
    (stream ref layout.schema).Yields (Fit layout.schema) db₀.Stays where
  start := start_upholds ref layout.schema
  next := by
    have hnext := (next_upholds Database.stays_works.toParts href hlayout).run
    rwa [Journaled.run_next] at hnext
  rewind := by
    refine .bind StreamM.getState_upholds fun state _ => ?_
    cases state with
    | none => exact .throw _
    | some cursor => exact start_upholds ref layout.schema
  close _ _ := by
    rintro cursor ⟨⟩

end Scan

end Leaves

/-! ## 4. Sums -/

section Nodes

variable {σ τ α : Type} {Inv : Database → Prop} {FitO : σ → Prop} {FitI : τ → Prop}

namespace Aggregate

/-- The results that are there have the schema of the aggregate. -/
def Typed (a : Aggregate) (FitO : σ → Prop) (s : State σ) : Prop :=
  FitO s.child ∧ ∀ results, s.results = some results →
    Of a.schema results.all ∧ Of a.schema results.left

variable {a : Aggregate} {child : RowStream σ}

/-- The rows of the groups are made under the schema of the aggregate. -/
theorem of_finish {groups : Groups} {all : List Row} (h : a.finish groups = .ok all) :
    Of a.schema all := by
  rw [finish, mapM_ok_iff] at h
  intro row hrow
  have hmem : (.ok row : Except Error Row) ∈ groups.map a.finishGroup := by
    rw [h]
    exact List.mem_map_of_mem hrow
  obtain ⟨⟨key, tally⟩, -, hgroup⟩ := List.mem_map.mp hmem
  obtain ⟨v, -, hmake⟩ := exists_of_bind_ok hgroup
  unfold Row.make at hmake
  split at hmake
  · cases hmake
    rfl
  · cases hmake

theorem onChild_upholds {x : StreamM σ α} {Post : α → Prop}
    (hx : Upholds (StreamM.Both FitO Inv) Post x) :
    Upholds (StreamM.Both (a.Typed FitO) Inv) Post (onChild x) :=
  StreamM.onPart_upholds hx (fun _ hs => hs.1) fun _ _ hs ht => ⟨ht, hs.2⟩

theorem setResults_upholds {results : Results} (hall : Of a.schema results.all)
    (hleft : Of a.schema results.left) :
    Upholds (StreamM.Both (a.Typed FitO) Inv) Any (setResults results) := by
  refine .bind StreamM.getState_upholds fun s hs => StreamM.setState_upholds ⟨hs.1, ?_⟩
  rintro _ ⟨⟩
  exact ⟨hall, hleft⟩

theorem getResults_upholds : Upholds (StreamM.Both (a.Typed FitO) Inv)
    (fun results => Of a.schema results.all ∧ Of a.schema results.left)
    (getResults : StreamM (State σ) Results) := by
  refine .bind StreamM.getState_upholds fun s hs => ?_
  cases hresults : s.results with
  | none => exact .throw _
  | some results => exact .pure (hs.2 results hresults)

theorem yields (h : child.Yields FitO Inv) :
    (stream a child).Yields (a.Typed FitO) Inv where
  start := by
    refine .bind (onChild_upholds h.start) fun _ _ => ?_
    refine .bind (onChild_upholds (h.fold _ _)) fun groups _ => ?_
    refine .bind (StreamM.onDatabase_upholds (Database.attempt_upholds _)) fun all hall => ?_
    exact setResults_upholds (of_finish hall) (of_finish hall)
  next := by
    refine .bind getResults_upholds fun results ⟨hall, hleft⟩ => ?_
    split
    · exact .pure (.nil _)
    · rename_i row rest hresults
      rw [hresults] at hleft
      have hrest : Of a.schema rest := fun r hr => hleft r (List.mem_cons_of_mem row hr)
      refine .bind (setResults_upholds hall hrest) fun _ _ => .pure ?_
      exact .cons (hleft row List.mem_cons_self) (.nil _)
  rewind := .bind getResults_upholds fun _ ⟨hall, _⟩ => setResults_upholds hall hall
  close s hs := by
    refine ⟨h.close s.child hs.1, ?_⟩
    rintro results ⟨⟩

end Aggregate

/-! ## 5. Joins -/

namespace Join

/-- A pair that comes of merging two blocks is a row of the one and a row of the other. -/
theorem mem_product {ls rs : List Row} {row : Row} (h : row ∈ product ls rs) :
    ∃ l ∈ ls, ∃ r ∈ rs, row = l ++ r := by
  obtain ⟨l, hl, hrow⟩ := List.mem_flatMap.mp h
  obtain ⟨r, hr, rfl⟩ := List.mem_map.mp hrow
  exact ⟨l, hl, r, hr, rfl⟩

theorem mem_mergeEqual {lf rf : Nat} {ls rs : List Row} {row : Row}
    (h : row ∈ mergeEqual lf rf ls rs) : ∃ l ∈ ls, ∃ r ∈ rs, row = l ++ r := by
  fun_induction mergeEqual lf rf ls rs with
  | case1 => exact absurd h List.not_mem_nil
  | case2 => exact absurd h List.not_mem_nil
  | case3 l ls r rs hlt ih =>
    obtain ⟨l', hl', hrest⟩ := ih h
    exact ⟨l', List.mem_cons_of_mem l hl', hrest⟩
  | case4 l ls r rs hgt ih =>
    obtain ⟨l', hl', r', hr', hrow⟩ := ih h
    exact ⟨l', hl', r', List.mem_cons_of_mem r hr', hrow⟩
  | case5 l ls r rs heq ih =>
    rcases List.mem_append.mp h with hrun | hrest
    · obtain ⟨l', hl', r', hr', hrow⟩ := mem_product hrun
      exact ⟨l', List.cons_subset_cons l (List.takeWhile_subset _) hl', r',
        List.cons_subset_cons r (List.takeWhile_subset _) hr', hrow⟩
    · obtain ⟨l', hl', r', hr', hrow⟩ := ih hrest
      exact ⟨l', List.mem_cons_of_mem l ((List.dropWhile_sublist _).subset hl'), r',
        List.mem_cons_of_mem r ((List.dropWhile_sublist _).subset hr'), hrow⟩

theorem mem_mergeRuns {c : JoinCondition} {ls rs : List Row} {row : Row}
    (h : row ∈ mergeRuns c ls rs) : ∃ l ∈ ls, ∃ r ∈ rs, row = l ++ r := by
  obtain ⟨l, hl, hrow⟩ := List.mem_flatMap.mp h
  obtain ⟨r, hr, rfl⟩ := List.mem_map.mp hrow
  exact ⟨l, hl, r, (List.takeWhile_subset _) hr, rfl⟩

theorem mem_mergeBlocks {c : JoinCondition} {ls rs : List Row} {row : Row}
    (h : row ∈ mergeBlocks c ls rs) : ∃ l ∈ ls, ∃ r ∈ rs, row = l ++ r := by
  unfold mergeBlocks at h
  split at h
  · exact mem_mergeEqual h
  · exact mem_mergeRuns h
  · exact mem_mergeRuns h
  · obtain ⟨l, hl, r, hr, hrow⟩ := mem_mergeRuns h
    exact ⟨l, hl, r, List.mem_reverse.mp hr, hrow⟩
  · obtain ⟨l, hl, r, hr, hrow⟩ := mem_mergeRuns h
    exact ⟨l, hl, r, List.mem_reverse.mp hr, hrow⟩
  · exact absurd h List.not_mem_nil
  · exact absurd h List.not_mem_nil

/-- Rows that are put together have the schema of the join. -/
theorem of_mergeBlocks {c : JoinCondition} {outer inner : Schema} {ls rs : List Row}
    (hl : Of outer ls) (hr : Of inner rs) : Of (outer ++ inner) (mergeBlocks c ls rs) := by
  intro row hrow
  obtain ⟨l, hml, r, hmr, rfl⟩ := mem_mergeBlocks hrow
  change l.schema ++ r.schema = outer ++ inner
  rw [hl l hml, hr r hmr]

/-- The block at hand is one of outer rows, and the pairs are rows of the join. -/
structure Run.Typed (outer inner : Schema) (run : Run) : Prop where
  block : Of outer run.outerBlock
  output : Of (outer ++ inner) run.output

def Typed (outer inner : Schema) (FitO : σ → Prop) (FitI : τ → Prop) (s : State σ τ) : Prop :=
  FitO s.outer ∧ FitI s.inner ∧ ∀ run, s.run = some run → run.Typed outer inner

theorem Run.typed_empty (outer inner : Schema) : Run.Typed outer inner {} := ⟨.nil _, .nil _⟩

variable {join : Join} {outer : RowStream σ} {inner : RowStream τ} {os is : Schema}

theorem onOuter_upholds {x : StreamM σ α} {Post : α → Prop}
    (hx : Upholds (StreamM.Both FitO Inv) Post x) :
    Upholds (StreamM.Both (Typed os is FitO FitI) Inv) Post
      (onOuter x : StreamM (State σ τ) α) :=
  StreamM.onPart_upholds hx (fun _ hs => hs.1) fun _ _ hs ht => ⟨ht, hs.2⟩

theorem onInner_upholds {x : StreamM τ α} {Post : α → Prop}
    (hx : Upholds (StreamM.Both FitI Inv) Post x) :
    Upholds (StreamM.Both (Typed os is FitO FitI) Inv) Post
      (onInner x : StreamM (State σ τ) α) :=
  StreamM.onPart_upholds hx (fun _ hs => hs.2.1) fun _ _ hs ht => ⟨hs.1, ht, hs.2.2⟩

theorem setRun_upholds {run : Run} (hrun : run.Typed os is) :
    Upholds (StreamM.Both (Typed os is FitO FitI) Inv) Any
      (setRun run : StreamM (State σ τ) Unit) := by
  refine .bind StreamM.getState_upholds fun s hs => StreamM.setState_upholds ⟨hs.1, hs.2.1, ?_⟩
  rintro _ ⟨⟩
  exact hrun

/-- A block that is taken and sorted is one of outer rows. -/
theorem nextOuter_upholds (ho : outer.Yields FitO Inv) (hi : inner.Yields FitI Inv) {run : Run}
    (hrun : run.Typed outer.schema inner.schema) :
    Upholds (StreamM.Both (Typed outer.schema inner.schema FitO FitI) Inv)
      (fun run? => ∀ run ∈ run?, run.Typed outer.schema inner.schema)
      (nextOuter join outer inner run) := by
  unfold nextOuter
  split
  · exact .pure fun _ hmem => absurd hmem (Option.not_mem_none _)
  · refine .bind (onOuter_upholds (ho.take _)) fun block hblock => ?_
    simp only
    split
    · refine .bind (setRun_upholds ⟨.nil _, hrun.output⟩) fun _ _ => ?_
      exact .pure fun _ hmem => absurd hmem (Option.not_mem_none _)
    · have hsorted : Of outer.schema (sortBlock join.condition.left block) :=
        fun row hrow => hblock row ((sortBlock_perm _ _).mem_iff.mp hrow)
      refine .bind (setRun_upholds ⟨hsorted, hrun.output⟩) fun _ _ => ?_
      refine .bind (onInner_upholds hi.rewind) fun _ _ => ?_
      refine .bind (setRun_upholds ⟨hsorted, hrun.output⟩) fun _ _ => .pure ?_
      rintro _ ⟨⟩
      exact ⟨hsorted, hrun.output⟩

/-- The pairs of two blocks are rows of the join. -/
theorem nextInner_upholds (hi : inner.Yields FitI Inv) {run : Run}
    (hrun : run.Typed os inner.schema) :
    Upholds (StreamM.Both (Typed os inner.schema FitO FitI) Inv)
      (fun run => run.Typed os inner.schema)
      (nextInner join inner run : StreamM (State σ τ) Run) := by
  refine .bind (onInner_upholds (hi.take _)) fun block hblock => ?_
  have hsorted : Of inner.schema (sortBlock join.condition.right block) :=
    fun row hrow => hblock row ((sortBlock_perm _ _).mem_iff.mp hrow)
  have hmerged := of_mergeBlocks (c := join.condition) hrun.block hsorted
  exact .bind (setRun_upholds ⟨hrun.block, hmerged⟩) fun _ _ => .pure ⟨hrun.block, hmerged⟩

theorem advance_upholds (ho : outer.Yields FitO Inv) (hi : inner.Yields FitI Inv) (fuel : Nat)
    {run : Run} (hrun : run.Typed outer.schema inner.schema) :
    Upholds (StreamM.Both (Typed outer.schema inner.schema FitO FitI) Inv)
      (fun row? => Of (outer.schema ++ inner.schema) row?.toList)
      (advance join outer inner fuel run) := by
  induction fuel generalizing run with
  | zero => exact .pure (.nil _)
  | succ fuel ih =>
    unfold advance
    split
    · rename_i row rest houtput
      have hall := hrun.output
      rw [houtput] at hall
      have hrest : Of (outer.schema ++ inner.schema) rest :=
        fun r hr => hall r (List.mem_cons_of_mem row hr)
      refine .bind (setRun_upholds ⟨hrun.block, hrest⟩) fun _ _ => .pure ?_
      exact .cons (hall row List.mem_cons_self) (.nil _)
    · split
      · refine .bind (nextOuter_upholds ho hi hrun) fun run? hrun? => ?_
        cases run? with
        | none => exact .pure (.nil _)
        | some run =>
          exact .bind (nextInner_upholds hi (hrun? run rfl)) fun _ hrun' => ih hrun'
      · exact .bind (nextInner_upholds hi hrun) fun _ hrun' => ih hrun'

theorem yields (ho : outer.Yields FitO Inv) (hi : inner.Yields FitI Inv) :
    (stream join outer inner).Yields (Typed outer.schema inner.schema FitO FitI) Inv where
  start := .bind (onOuter_upholds ho.start) fun _ _ => .bind (onInner_upholds hi.start) fun _ _ =>
    setRun_upholds (Run.typed_empty _ _)
  next := by
    refine .bind .get fun (s, db) hs => ?_
    obtain ⟨⟨-, -, hrun⟩, -⟩ := hs
    cases hopen : s.run with
    | none =>
      simp only [hopen]
      exact .throw _
    | some run =>
      simp only [hopen]
      exact advance_upholds ho hi _ (hrun run hopen)
  rewind := by
    refine .bind StreamM.getState_upholds fun s _ => ?_
    cases s.run with
    | none => exact .throw _
    | some run =>
      exact .bind (onOuter_upholds ho.rewind) fun _ _ => setRun_upholds (Run.typed_empty _ _)
  close s hs := by
    refine ⟨ho.close s.outer hs.1, hi.close s.inner hs.2.1, ?_⟩
    rintro run ⟨⟩

end Join

end Nodes

end RowStore
