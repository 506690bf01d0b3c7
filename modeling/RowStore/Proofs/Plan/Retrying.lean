/-
# Asking a join again after an error

While a join of two tables is under way, others hold pages for a time, so that now and then there is
no frame for a page that the join needs.  The call fails, and the caller asks again, until the join
says that there are no more rows.

What is handed out then never has a pair twice or one that should not be there, but pairs can be
missing: a call that fails drops the rows that it has taken for a block so far
(`Running.pairs_lost`).  How many pairs this can cost is known (`Running.join_asked_again`).  None
are missing if no call has failed, or if the blocks are of one row.

A run is an account: what was handed out, what the join has left and what is lost are together the
pairs of the nested loop (`Running.Owes`).
-/
import RowStore.Proofs.Plan.Scanning
import RowStore.Proofs.Stream.Losses

namespace RowStore

/-! ## 1. Errors among the replies -/

/-- How many of the calls have failed. -/
def Reply.failures (replies : List Reply) : Nat :=
  replies.countP fun
    | .failed _ => true
    | _ => false

@[simp] theorem Reply.failures_append (replies replies' : List Reply) :
    failures (replies ++ replies') = failures replies + failures replies' :=
  List.countP_append

/-! ## 2. The account of a run -/

/-- What is under way keeps its tables as long as no act changes them. -/
theorem Database.Keeps.perform {db₀ : Database} {tables : List TableId} {s : Session}
    (h : db₀.Keeps tables s.db) {act : Act} (hmarked : act.Marked)
    (hsame : ∀ table ∈ tables, db₀.SameRows (endState ((Session.perform act).run s)).db table) :
    db₀.Keeps tables (endState ((Session.perform act).run s)).db := by
  obtain ⟨hsound, hsettled, hkept⟩ := Session.perform_kept h.sound h.settled hmarked
  exact ⟨hsound, hsettled, fun id => (hkept id).trans (h.ref? id), hsame⟩

namespace Running

/-- The plan is under way.  It has handed out `given` of the rows; those that it does not have left
are lost, and are no more than so many. -/
structure Owes (db₀ : Database) (tables : List TableId) (p : Plan) (At : p.State → List Row → Prop)
    (rows given : List Row) (most : Nat) (r : Running) : Prop where
  keeps : db₀.Keeps tables r.session.db
  account : ∃ state left lost, r.query = ⟨p, state⟩ ∧ At state left ∧
    (given ++ (left ++ lost)).Perm rows ∧ lost.length ≤ most

variable {db₀ : Database} {tables : List TableId} {p : Plan} {At : p.State → List Row → Prop}
  {all rows given : List Row} {most cost : Nat} {r : Running}

/-- A plan that is started has all its rows left. -/
theorem Owes.start (hp : p.stream.Loses (db₀.Keeps tables) all At cost) {s : Session}
    (hkeeps : db₀.Keeps tables s.db) (state : p.State) (hrows : all.Perm rows) :
    Owes db₀ tables p At rows [] 0 ((Running.mk s ⟨p, state⟩).after [.call .start]) := by
  obtain ⟨state', db', hstart, hkeeps', hat⟩ := hp.start state s.db hkeeps
  have hcall : p.stream.call state s.db .start = (.done, (state', db')) := by
    rw [RowStream.call, hstart]
    rfl
  rw [Running.after, step_call hcall]
  refine ⟨hkeeps', state', all, [], rfl, hat, ?_, Nat.le_refl 0⟩
  rwa [List.append_nil]

theorem Owes.act (h : Owes db₀ tables p At rows given most r) {act : Act} (hmarked : act.Marked)
    (hsame : ∀ table ∈ tables, db₀.SameRows (r.step (.act act)).2.session.db table) :
    Owes db₀ tables p At rows given most (r.step (.act act)).2 :=
  ⟨h.keeps.perform hmarked hsame, h.account⟩

/-- **A call that asks for a row** moves one from what is left to what is given, or some from what is
left to what is lost. -/
theorem Owes.next (h : Owes db₀ tables p At rows given most r)
    (hp : p.stream.Loses (db₀.Keeps tables) all At cost) :
    ∃ reply, (r.step (.call .next)).1 = some reply ∧
      Owes db₀ tables p At rows (given ++ Reply.rows [reply])
        (most + Reply.failures [reply] * cost) (r.step (.call .next)).2 ∧
      (reply = .row none → ∃ lost, (given ++ lost).Perm rows ∧ lost.length ≤ most) := by
  obtain ⟨s, query⟩ := r
  obtain ⟨state, left, lost, hquery, hat, hperm, hlost⟩ := h.account
  obtain rfl : query = ⟨p, state⟩ := hquery
  have hnext := hp.next state s.db left h.keeps hat
  have hstep : ∀ {reply state' db'},
      RowStream.replied .row (p.stream.next.run (state, s.db)) = (reply, (state', db')) →
      (Running.mk s ⟨p, state⟩).step (.call .next) =
        (some reply, ⟨{ s with db := db' }, ⟨p, state'⟩⟩) := fun hcall =>
    @step_call s p state _ _ .next _ hcall
  generalize p.stream.next.run (state, s.db) = result at hnext hstep
  cases hnext with
  | @ok state' db' hkeeps hat' =>
    rw [hstep rfl]
    refine ⟨_, rfl, ⟨hkeeps, state', left.tail, lost, rfl, hat', ?_, ?_⟩, ?_⟩
    · cases left with
      | nil => simpa [Reply.rows] using hperm
      | cons row left => simpa [Reply.rows] using hperm
    · exact hlost.trans (Nat.le_add_right _ _)
    · intro hnone
      obtain rfl : left = [] := List.head?_eq_none_iff.mp (Reply.row.inj hnone)
      exact ⟨lost, hperm, hlost⟩
  | @failed left' gone e state' db' hleft hgone hkeeps hat' =>
    rw [hstep rfl]
    refine ⟨_, rfl, ⟨hkeeps, state', left', gone ++ lost, rfl, hat', ?_, ?_⟩, ?_⟩
    · have hmoved := (hleft.append_right lost).append_left given
      rw [List.append_assoc] at hmoved
      simpa [Reply.rows] using hmoved.symm.trans hperm
    · rw [List.length_append]
      have hfailures : Reply.failures [.failed e] = 1 := rfl
      rw [hfailures, Nat.one_mul]
      omega
    · intro hnone
      cases hnone

/-- **Whatever comes between**, the account goes on.  By induction on the events. -/
theorem Owes.after (h : Owes db₀ tables p At rows given most r)
    (hp : p.stream.Loses (db₀.Keeps tables) all At cost) {events : List Event}
    (hasks : ∀ e ∈ events, e.Asks)
    (hsame : ∀ db ∈ r.moments events, ∀ table ∈ tables, db₀.SameRows db table) :
    Owes db₀ tables p At rows (given ++ Reply.rows (r.replies events))
      (most + Reply.failures (r.replies events) * cost) (r.after events) := by
  induction events generalizing r given most with
  | nil => simpa [Running.after, replies, Reply.rows, Reply.failures] using h
  | cons e events ih =>
    obtain ⟨hask, hasks'⟩ := List.forall_mem_cons.mp hasks
    obtain ⟨hnow, hsame'⟩ := List.forall_mem_cons.mp hsame
    rw [replies, Running.after, Reply.rows_append, Reply.failures_append, ← List.append_assoc,
      Nat.add_mul, ← Nat.add_assoc]
    cases e with
    | act act =>
      have hrest := ih (h.act hask hnow) hasks' hsame'
      simpa [step, Reply.rows, Reply.failures] using hrest
    | call call =>
      cases call with
      | next =>
        obtain ⟨reply, hreply, hnext, -⟩ := h.next hp
        rw [hreply]
        exact ih hnext hasks' hsame'
      | start => cases hask
      | rewind => cases hask
      | close => cases hask

end Running

/-! ## 3. A small join

A table with a row on each of two pages, and a pool of one page. -/

namespace Sample

def seven : Row := row.movedTo (some ⟨⟨0, 0⟩, 0⟩)

def eight : Row := ⟨schema, [.int 8], some ⟨⟨0, 1⟩, 0⟩, rfl⟩

def twoPages : Session :=
  (Session.start (opened 1)).after [.row (eight.movedTo none), .insert 0 0]

def scan : Plan := .scan ⟨0⟩ schema

/-- The table with itself, in blocks of two rows. -/
def selfJoin : Join := ⟨⟨0, .eq, 0⟩, 2, 2⟩

def joining : Running :=
  (Running.start twoPages (.join selfJoin scan scan)).after [.call .start]

/-- The first page is held while the join is asked, so that it does not get the second one. -/
def holding : List Event := [.act (.get ⟨0, 0⟩), .call .next, .act (.letGo 0), .call .next]

theorem tableRows_twoPages : twoPages.db.tableRows 0 = [seven, eight] := by cbv

theorem nestedLoop_twoPages : Join.nestedLoop ⟨0, .eq, 0⟩ [seven, eight] [seven, eight] =
    [seven ++ seven, eight ++ eight] := by cbv

theorem asks_holding : ∀ e ∈ holding, e.Asks := by simp [holding, Event.Asks, Act.Marked]

theorem replies_holding :
    joining.replies holding = [.failed .allPinned, .row (some (eight ++ eight))] := by cbv

theorem none_holding : (joining.after holding).replies [.call .next] = [.row none] := by cbv

theorem sameRows_twoPages {db : Database} (hcount : db.pageCount? 0 = some 2)
    (hfirst : db.pageRows ⟨0, 0⟩ = [seven]) (hsecond : db.pageRows ⟨0, 1⟩ = [eight]) :
    twoPages.db.SameRows db 0 := by
  have hcount₀ : twoPages.db.pageCount? 0 = some 2 := by cbv
  have hfirst₀ : twoPages.db.pageRows ⟨0, 0⟩ = [seven] := by cbv
  have hsecond₀ : twoPages.db.pageRows ⟨0, 1⟩ = [eight] := by cbv
  refine ⟨hcount.trans hcount₀.symm, ?_⟩
  intro count hcount' number hlt
  obtain rfl : 2 = count := Option.some.inj (hcount₀.symm.trans hcount')
  rcases Nat.le_one_iff_eq_zero_or_eq_one.mp (Nat.le_of_lt_succ hlt) with rfl | rfl
  · exact hfirst.trans hfirst₀.symm
  · exact hsecond.trans hsecond₀.symm

/-- Nothing is stored or deleted while the join is under way. -/
theorem sameRows_holding : ∀ db ∈ joining.moments holding, twoPages.db.SameRows db 0 := by
  have hall : (joining.moments holding).all (fun db => decide (db.pageCount? 0 = some 2 ∧
      db.pageRows ⟨0, 0⟩ = [seven] ∧ db.pageRows ⟨0, 1⟩ = [eight])) = true := by cbv
  intro db hdb
  obtain ⟨hcount, hfirst, hsecond⟩ := of_decide_eq_true (List.all_eq_true.mp hall db hdb)
  exact sameRows_twoPages hcount hfirst hsecond

end Sample

namespace Running

/-! ## 4. Joins of tables -/

/-- The scan of a table, seen from what is known of the table. -/
theorem scanOf_eq_of_sound {db db' : Database} (h : Sound db) {id : TableId} {ref : TableRef}
    (href : db.ref? id = some ref) {q : Plan} (hq : (Plan.scanOf ref).run db = .ok q db') :
    ∃ x, db.extent? id = some x ∧ q = .scan ref x.layout.schema := by
  obtain ⟨x, hx⟩ := h.registered.exists_extent href
  obtain ⟨f, hfile, hd⟩ := h.registered.file_run href hx
  simp only [Plan.scanOf, EStateM.run_bind, hfile, EStateM.run_pure] at hq
  cases hq
  exact ⟨x, hx, by rw [hd.layout]⟩

/-- **A join that is asked again.** Take tables that any openings have led to, each with a file of
its own, any session on them, and a join of two of the tables that could be made, whatever its
budget.  It is started and asked for rows, and the session goes on in between in any way that leaves
the rows of the two tables as they are; calls may fail, and the join is asked again.  Then what is
handed out are pairs of the nested loop, none more often than there.  When the join says that there
are no more, what is missing is no more than so many pairs for each call that has failed; and
nothing is missing if none has failed or if the blocks are of one row. -/
theorem join_asked_again {disk : Disk} {pageSize capacity : Nat} {db₀ : Database}
    (h₀ : Database.onDisk disk pageSize capacity = .ok db₀) (openings : List Opening)
    (hseparate : (db₀.openAll openings).Separate) {acts : List Act}
    (hmarked : ∀ act ∈ acts, act.Marked) {s : Session}
    (hs : s = (Session.start (db₀.openAll openings)).after acts) {outer inner : TableId}
    {ref₁ ref₂ : TableRef} (href₁ : s.db.ref? outer = some ref₁)
    (href₂ : s.db.ref? inner = some ref₂) {o i : Plan}
    (ho : (Plan.scanOf ref₁).run s.db = .ok o s.db) (hi : (Plan.scanOf ref₂).run s.db = .ok i s.db)
    {condition : JoinCondition} {budget : Nat} {j : Join}
    (hjoin : Plan.join? condition o i budget = .ok (.join j o i))
    (state : (Plan.join j o i).State) {r : Running}
    (hr : r = (Running.mk s ⟨.join j o i, state⟩).after [.call .start]) {events : List Event}
    (hasks : ∀ e ∈ events, e.Asks)
    (hsame : ∀ db ∈ r.moments events, s.db.SameRows db outer ∧ s.db.SameRows db inner)
    {given pairs : List Row} (hgiven : given = Reply.rows (r.replies events))
    (hpairs : pairs = Join.nestedLoop condition (s.db.tableRows outer) (s.db.tableRows inner)) :
    given.Subperm pairs ∧
      ((r.after events).replies [.call .next] = [.row none] →
        (∃ lost, (given ++ lost).Perm pairs ∧ lost.length ≤
          Reply.failures (r.replies events) * j.mostLost (s.db.tableRows inner).length) ∧
        (Reply.failures (r.replies events) = 0 ∨ j.outerCapacity = 1 ∧ j.innerCapacity = 1 →
          given.Perm pairs)) := by
  obtain ⟨hsound, hsettled⟩ := Session.sound_settled_after h₀ hseparate hmarked hs
  obtain ⟨x, hx, rfl⟩ := scanOf_eq_of_sound hsound href₁ ho
  obtain ⟨y, hy, rfl⟩ := scanOf_eq_of_sound hsound href₂ hi
  obtain ⟨j', hj', hmake⟩ := Plan.join?_eq hjoin
  obtain rfl : j = j' := (Plan.join.inj hj').1
  obtain ⟨rfl, haccepts⟩ := Join.make_accepts hmake
  have houter : (Scan.stream ref₁ x.layout.schema).Resumes (s.db.Keeps [outer, inner]) _ _ :=
    Scan.resumes List.mem_cons_self hsound href₁ hx
  have hinner : (Scan.stream ref₂ y.layout.schema).Resumes (s.db.Keeps [outer, inner]) _ _ :=
    Scan.resumes (List.mem_cons_of_mem _ List.mem_cons_self) hsound href₂ hy
  have hloses := Join.loses haccepts houter hinner
  have hrows := Join.rows_perm haccepts houter.schema hinner.schema
  rw [← hpairs] at hrows
  have hstart := @Owes.start s.db [outer, inner]
    (.join j (.scan ref₁ x.layout.schema) (.scan ref₂ y.layout.schema)) _ _ _ _ hloses s
    (.refl hsound hsettled) state hrows
  rw [← hr] at hstart
  have hsame' : ∀ db ∈ r.moments events, ∀ table ∈ [outer, inner], s.db.SameRows db table := by
    intro db hdb
    obtain ⟨houter, hinner⟩ := hsame db hdb
    simp [houter, hinner]
  have hafter := hstart.after hloses hasks hsame'
  rw [List.nil_append, Nat.zero_add, ← hgiven] at hafter
  constructor
  · obtain ⟨-, left, lost, -, -, hperm, -⟩ := hafter.account
    exact (List.sublist_append_left given _).subperm.trans hperm.subperm
  · intro hnone
    obtain ⟨reply, hreply, -, hend⟩ := hafter.next hloses
    rw [replies, hreply] at hnone
    obtain ⟨lost, hperm, hlost⟩ := hend (List.cons.inj hnone).1
    refine ⟨⟨lost, hperm, hlost⟩, ?_⟩
    intro hsafe
    have hzero : Reply.failures (r.replies events) * j.mostLost (s.db.tableRows inner).length =
        0 := by
      rcases hsafe with hnever | ⟨hone, hone'⟩
      · rw [hnever, Nat.zero_mul]
      · simp [Join.mostLost, hone, hone']
    obtain rfl : lost = [] := List.eq_nil_of_length_eq_zero (Nat.le_zero.mp (hzero ▸ hlost))
    rwa [List.append_nil] at hperm

/-- The call that does not get the second page has taken the row of the first one. -/
theorem join_asked_again_held :
    ∃ (r : Running) (events : List Event) (given pairs : List Row),
      r.replies events = [.failed .allPinned, .row (some (Sample.eight ++ Sample.eight))] ∧
      (r.after events).replies [.call .next] = [.row none] ∧
      given = [Sample.eight ++ Sample.eight] ∧
      pairs = [Sample.seven ++ Sample.seven, Sample.eight ++ Sample.eight] ∧
      given.Subperm pairs ∧ ∃ lost, (given ++ lost).Perm pairs ∧ lost.length ≤ 2 := by
  let scan := Sample.scan
  have h₀ : Database.onDisk Sample.disk 8 1 = .ok (Sample.database 1) := rfl
  have hs : Sample.twoPages = (Session.start ((Sample.database 1).openAll [Sample.opening])).after
      [.row (Sample.eight.movedTo none), .insert 0 0] := by
    rw [Sample.openAll_eq]
    rfl
  have href : Sample.twoPages.db.ref? 0 = some ⟨0⟩ := by cbv
  have hscan : (Plan.scanOf ⟨0⟩).run Sample.twoPages.db = .ok scan Sample.twoPages.db := by cbv
  have hjoin : Plan.join? ⟨0, .eq, 0⟩ scan scan 8 = .ok (.join Sample.selfJoin scan scan) := by cbv
  have hgiven : [Sample.eight ++ Sample.eight] =
      Reply.rows (Sample.joining.replies Sample.holding) := by
    rw [Sample.replies_holding]
    rfl
  have hpairs : [Sample.seven ++ Sample.seven, Sample.eight ++ Sample.eight] =
      Join.nestedLoop ⟨0, .eq, 0⟩ (Sample.twoPages.db.tableRows 0)
        (Sample.twoPages.db.tableRows 0) := by
    rw [Sample.tableRows_twoPages, Sample.nestedLoop_twoPages]
  have hr : Sample.joining = (Running.mk Sample.twoPages (.ofPlan (.join Sample.selfJoin scan
      scan))).after [.call .start] := rfl
  obtain ⟨hsub, hend⟩ := join_asked_again h₀ [Sample.opening] (Sample.ordinary 1).separate
    (by simp [Act.Marked]) hs href href hscan hscan hjoin _ hr Sample.asks_holding
    (fun db hdb => ⟨Sample.sameRows_holding db hdb, Sample.sameRows_holding db hdb⟩) hgiven hpairs
  obtain ⟨⟨lost, hperm, hlost⟩, -⟩ := hend Sample.none_holding
  refine ⟨Sample.joining, Sample.holding, _, _, Sample.replies_holding, Sample.none_holding, rfl,
    rfl, hsub, lost, hperm, ?_⟩
  rwa [Sample.replies_holding, Sample.tableRows_twoPages] at hlost

/-- A pair is missing: that of the row that the failed call has dropped with itself. -/
theorem pairs_lost :
    Plan.join? ⟨0, .eq, 0⟩ Sample.scan Sample.scan 8 =
        .ok (.join Sample.selfJoin Sample.scan Sample.scan) ∧
      (∀ e ∈ Sample.holding, e.Asks) ∧
      (∀ db ∈ Sample.joining.moments Sample.holding, Sample.twoPages.db.SameRows db 0) ∧
      Sample.joining.replies Sample.holding =
        [.failed .allPinned, .row (some (Sample.eight ++ Sample.eight))] ∧
      (Sample.joining.after Sample.holding).replies [.call .next] = [.row none] ∧
      ¬ (Reply.rows (Sample.joining.replies Sample.holding)).Perm
        (Join.nestedLoop ⟨0, .eq, 0⟩ (Sample.twoPages.db.tableRows 0)
          (Sample.twoPages.db.tableRows 0)) := by
  refine ⟨by cbv, Sample.asks_holding, Sample.sameRows_holding, Sample.replies_holding,
    Sample.none_holding, ?_⟩
  rw [Sample.replies_holding, Sample.tableRows_twoPages, Sample.nestedLoop_twoPages]
  intro hperm
  cases hperm.length_eq

end Running
end RowStore
