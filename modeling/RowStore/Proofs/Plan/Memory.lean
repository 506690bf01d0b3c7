/-
# Memory does not show in results

Two plans are alike if they were built in the same way over tables with the same rows, with
other budgets for their joins and perhaps over another database, with a pool of another capacity
and other pages in it (`Plan.Alike`).  A budget changes the order in which a join hands out its
pairs; an aggregate above it meets its groups in another order, and the next join cuts its blocks
elsewhere.

None of that changes what comes out, apart from its order (`Alike.agree`).  A join of rows in
another order is the nested loop all the same, and neither the rows of an aggregate nor whether it
overflows depends on the order below it, as long as thirty-two bits can number the rows.  By
induction on how the plans were built, each node takes alike rows to alike rows; the results of
running the two plans follow (`Alike.memory_independent`).
-/
import RowStore.Proofs.Plan.Running

namespace RowStore
namespace Plan

/-! ## 1. Plans that are alike -/

/-- The plans were built in the same way, over tables with the same rows, but for the budgets of
their joins. -/
inductive Alike (db db' : Database) : Plan → Plan → Prop
  | listing {schema : Schema} {rows : List Row} {p : Plan} (h : listing? schema rows = .ok p) :
      Alike db db' p p
  | scan {id : TableId} {ref ref' : TableRef} {p p' : Plan} {db₁ db₁' : Database}
      (href : db.ref? id = some ref) (href' : db'.ref? id = some ref')
      (h : (scanOf ref).run db = .ok p db₁) (h' : (scanOf ref').run db' = .ok p' db₁')
      (hschema : p.schema = p'.schema) (hrows : db.tableRows id = db'.tableRows id) :
      Alike db db' p p'
  | join {condition : JoinCondition} {o i o' i' p p' : Plan} {budget budget' : Nat}
      (ho : Alike db db' o o') (hi : Alike db db' i i') (h : join? condition o i budget = .ok p)
      (h' : join? condition o' i' budget' = .ok p') : Alike db db' p p'
  | aggregate {child child' p p' : Plan} {field : Nat} {group : Option Nat} {summary : Summary}
      (hchild : Alike db db' child child') (h : aggregate? child field group summary = .ok p)
      (h' : aggregate? child' field group summary = .ok p') : Alike db db' p p'

/-- Thirty-two bits can number the rows that come to any aggregate of the plan. -/
def FewRows (db : Database) : Plan → Prop
  | listing _ _ => True
  | scan _ _ => True
  | join _ o i => o.FewRows db ∧ i.FewRows db
  | aggregate _ child => child.FewRows db ∧
      ∀ below, child.rows db = .ok below → below.length < 4294967296

namespace Alike

variable {db db' : Database} {p p' : Plan}

theorem schema_eq (h : Alike db db' p p') : p.schema = p'.schema := by
  induction h with
  | listing h => rfl
  | scan href href' h h' hschema hrows => exact hschema
  | join ho hi h h' iho ihi =>
    obtain ⟨j, rfl, -⟩ := join?_eq h
    obtain ⟨j', rfl, -⟩ := join?_eq h'
    rw [schema, schema, iho, ihi]
  | aggregate hchild h h' ih =>
    obtain ⟨a, rfl, hmake⟩ := aggregate?_eq h
    obtain ⟨a', rfl, hmake'⟩ := aggregate?_eq h'
    rw [ih, hmake', Except.ok.injEq] at hmake
    rw [schema, schema, hmake]

theorem builtOver (h : Alike db db' p p') : p.BuiltOver db ∧ p'.BuiltOver db' := by
  induction h with
  | listing h => exact ⟨.listing h, .listing h⟩
  | scan href href' h h' hschema hrows => exact ⟨.scan href h, .scan href' h'⟩
  | join ho hi h h' iho ihi => exact ⟨.join iho.1 ihi.1 h, .join iho.2 ihi.2 h'⟩
  | aggregate hchild h h' ih => exact ⟨.aggregate ih.1 h, .aggregate ih.2 h'⟩

end Alike

/-! ## 2. Alike plans come to alike rows -/

/-- **Two joins on one condition**, of the same rows in some order, have the same pairs. -/
theorem rows_join_agree {j j' : Join} {outer inner : Schema} (h : j.Accepts outer inner)
    (h' : j'.Accepts outer inner) (hcondition : j.condition = j'.condition)
    {os os' is is' : List Row} (hos : os.Perm os') (his : is.Perm is')
    (hos' : ∀ row ∈ os', row.schema = outer) (his' : ∀ row ∈ is', row.schema = inner) :
    (j.rows os is).Perm (j'.rows os' is') := by
  have hleft := Join.rows_perm h (fun row hrow => hos' row (hos.mem_iff.mp hrow))
    fun row hrow => his' row (his.mem_iff.mp hrow)
  have hright := Join.rows_perm h' hos' his'
  rw [← hcondition] at hright
  exact (hleft.trans (Join.nestedLoop_perm hos his)).trans hright.symm

/-- **Alike plans** come to the same rows, but for their order, or overflow both. -/
theorem Alike.agree {db db' : Database} (hrest : db.AtRest) (hrest' : db'.AtRest) {p p' : Plan}
    (h : Alike db db' p p') (hfew : p.FewRows db) : Agree (p.rows db) (p'.rows db') := by
  induction h with
  | listing h =>
    obtain ⟨rfl, -⟩ := listing?_eq h
    exact .rows (.refl _)
  | scan href href' h h' hschema hrows =>
    obtain ⟨s, -, rfl, hs⟩ := scanOf_eq hrest href h
    obtain ⟨s', -, rfl, hs'⟩ := scanOf_eq hrest' href' h'
    rw [rows, rows, hs, hs', hrows]
    exact .rows (.refl _)
  | @join condition o i o' i' p p' budget budget' ho hi h h' iho ihi =>
    obtain ⟨j, rfl, hmake⟩ := join?_eq h
    obtain ⟨j', rfl, hmake'⟩ := join?_eq h'
    obtain ⟨hcondition, haccepts⟩ := Join.make_accepts hmake
    obtain ⟨hcondition', haccepts'⟩ := Join.make_accepts hmake'
    rw [ho.schema_eq, hi.schema_eq] at haccepts
    rcases (iho hfew.1).cases with ⟨os, os', hos, hos', hpermo⟩ | ⟨f, n, g, m, hover, hover'⟩
    · rcases (ihi hfew.2).cases with ⟨is, is', his, his', hpermi⟩ | ⟨f, n, g, m, hover, hover'⟩
      · have hpairs := rows_join_agree haccepts haccepts' (hcondition.trans hcondition'.symm) hpermo
          hpermi (ho.builtOver.2.schema_rows hrest' hos') (hi.builtOver.2.schema_rows hrest' his')
        rw [rows, rows, hos, hos', his, his']
        exact .rows hpairs
      · rw [rows, rows, hos, hos', hover, hover']
        exact .overflow
    · rw [rows, rows, hover, hover']
      exact .overflow
  | @aggregate child child' p p' field group summary hchild h h' ih =>
    obtain ⟨a, rfl, hmake⟩ := aggregate?_eq h
    obtain ⟨a', rfl, hmake'⟩ := aggregate?_eq h'
    rw [← hchild.schema_eq, hmake, Except.ok.injEq] at hmake'
    subst hmake'
    rcases (ih hfew.1).cases with
      ⟨below, below', hbelow, hbelow', hperm⟩ | ⟨f, n, g, m, hover, hover'⟩
    · rw [rows, rows, hbelow, hbelow']
      exact (Aggregate.make_accepts hmake).rows_agree
        (hchild.builtOver.1.schema_rows hrest hbelow) hperm (hfew.2 below hbelow)
    · rw [rows, rows, hover, hover']
      exact .overflow

end Plan

/-! ## 3. Running alike plans -/

namespace Query

/-- Opening the plan and taking all its rows succeeds, and gives the rows. -/
def Yields (q : Query) (db : Database) (rows : List Row) : Prop :=
  ∃ q₁ db₁, q.start db = (.ok (), q₁, db₁) ∧ (q₁.collect db₁).1 = .ok rows

variable {db : Database} {p : Plan}

/-- A plan that comes to rows gives them when it is run. -/
theorem yields_of_rows (hrest : db.AtRest) (hp : p.BuiltOver db) {rows : List Row}
    (hrows : p.rows db = .ok rows) : (ofPlan p).Yields db rows := by
  have hstill : db.Still db := ⟨hrest.mirrors, hrest.idle⟩
  cases hp.outcome hrest with
  | replays hrows' hover h =>
    obtain rfl := Except.ok.inj (hrows.symm.trans hrows')
    obtain ⟨state₁, db₁, hstart, hstill₁, hat⟩ := h.start p.closed db hstill
    obtain ⟨state₂, db₂, hcollect, -⟩ := h.collect hstill₁ hat
    rw [EStateM.run] at hstart hcollect
    refine ⟨⟨p, state₁⟩, db₁, ?_, ?_⟩
    · simp only [start, run, ofPlan, hstart]
    · simp only [collect, run, hcollect]
  | fails hrows' hover h =>
    rw [hrows] at hrows'
    cases hrows'

/-- A plan that overflows does not start. -/
theorem start_of_overflow (hrest : db.AtRest) (hp : p.BuiltOver db) {f : Summary} {n : Int}
    (hover : p.rows db = .error (.overflow f n)) :
    ((ofPlan p).start db).1 = .error (.overflow f n) := by
  have hstill : db.Still db := ⟨hrest.mirrors, hrest.idle⟩
  cases hp.outcome hrest with
  | replays hrows hover' h =>
    rw [hover] at hrows
    cases hrows
  | fails hrows hover' h =>
    rw [hover] at hrows
    cases hrows
    obtain ⟨state', db', hstart, -⟩ := h.start p.closed db hstill
    rw [EStateM.run] at hstart
    simp only [start, run, ofPlan, hstart]

end Query

namespace Plan

/-- **Memory does not show in results.** Take two databases at rest, whatever the capacities of
their pools and whatever is cached, and two plans that were built alike over tables with the same
rows, with any budgets for their joins.  Then either opening and emptying succeeds for both plans
and gives the same rows in some order, or the start of both fails with an overflow. -/
theorem Alike.memory_independent {db db' : Database} (hrest : db.AtRest) (hrest' : db'.AtRest)
    {p p' : Plan} (h : Alike db db' p p') (hfew : p.FewRows db) :
    (∃ rows rows', (Query.ofPlan p).Yields db rows ∧ (Query.ofPlan p').Yields db' rows' ∧
      rows.Perm rows') ∨
    ∃ f n g m, ((Query.ofPlan p).start db).1 = .error (.overflow f n) ∧
      ((Query.ofPlan p').start db').1 = .error (.overflow g m) := by
  obtain ⟨hp, hp'⟩ := h.builtOver
  rcases (h.agree hrest hrest' hfew).cases with
    ⟨rows, rows', hrows, hrows', hperm⟩ | ⟨f, n, g, m, hover, hover'⟩
  · exact .inl ⟨rows, rows', Query.yields_of_rows hrest hp hrows,
      Query.yields_of_rows hrest' hp' hrows', hperm⟩
  · exact .inr ⟨f, n, g, m, Query.start_of_overflow hrest hp hover,
      Query.start_of_overflow hrest' hp' hover'⟩

/-- Sums by group over a join, with blocks of one row and of two, in a pool of one page that has
nothing in it and in one of two pages that has the table's.  The groups come in two orders. -/
theorem Alike.memory_independent_blocks :
    ∃ (db db' : Database) (p p' : Plan) (rows rows' : List Row) (first second : Row),
      db.AtRest ∧ db'.AtRest ∧ Alike db db' p p' ∧ p.FewRows db ∧
      (Query.ofPlan p).Yields db rows ∧ (Query.ofPlan p').Yields db' rows' ∧ rows.Perm rows' ∧
      p.rows db = .ok [first, second] ∧ p'.rows db' = .ok [second, first] ∧ first ≠ second := by
  let acts : List Act := [.get ⟨0, 0⟩, .letGo 0]
  let db := Sample.opened 1
  let db' := ((Session.start (Sample.opened 2)).after acts).db
  let seven : Row := ⟨Sample.schema, [.int 7], none, rfl⟩
  let one : Row := ⟨Sample.schema, [.int 1], none, rfl⟩
  let table : Plan := .scan ⟨0⟩ Sample.schema
  let list : Plan := .listing Sample.schema [seven, one]
  let pairs (capacity : Nat) : Plan := .join ⟨⟨0, .le, 0⟩, capacity, capacity⟩ list table
  let sums : Schema := ⟨[⟨"n", .int⟩, ⟨"n", .int⟩]⟩
  let p (capacity : Nat) : Plan := .aggregate ⟨1, some 0, .sum, sums⟩ (pairs capacity)
  let first : Row := ⟨sums, [.int 7, .int 7], none, by decide⟩
  let second : Row := ⟨sums, [.int 1, .int 7], none, by decide⟩
  have hrest : db.AtRest := Sample.atRest Nat.one_pos
  have hopened : (Session.start (Sample.opened 2)).db.AtRest := Sample.atRest Nat.two_pos
  have hkind : ∀ act ∈ acts, act.Marked ∧ act.KeepsRoom := by simp [acts, Act.Marked, Act.KeepsRoom]
  have hsound : Sound db' := Session.sound_after hopened.sound acts
  have hrest' : db'.AtRest :=
    ⟨hsound, Session.settled_after hopened.sound hopened.settled fun act hact => (hkind act hact).1,
      Session.ordinary_after hopened.sound hopened.ordinary fun act hact => (hkind act hact).2,
      hsound.idle_of_toList (by cbv)⟩
  have href : db.ref? 0 = some ⟨0⟩ := by cbv
  have href' : db'.ref? 0 = some ⟨0⟩ := by cbv
  have htable : (scanOf ⟨0⟩).run db = .ok table db := rfl
  have htable' : (scanOf ⟨0⟩).run db' = .ok table db' := by cbv
  have hrows : db.tableRows 0 = db'.tableRows 0 := by cbv
  have hlist : listing? Sample.schema [seven, one] = .ok list := by cbv
  have hpairs : join? ⟨0, .le, 0⟩ list table 4 = .ok (pairs 1) := by cbv
  have hpairs' : join? ⟨0, .le, 0⟩ list table 8 = .ok (pairs 2) := by cbv
  have hsums : aggregate? (pairs 1) 1 (some 0) .sum = .ok (p 1) := by cbv
  have hsums' : aggregate? (pairs 2) 1 (some 0) .sum = .ok (p 2) := by cbv
  have halike : Alike db db' (p 1) (p 2) :=
    .aggregate (.join (.listing hlist) (.scan href href' htable htable' rfl hrows) hpairs hpairs')
      hsums hsums'
  have hbelow : ∃ below, (pairs 1).rows db = .ok below ∧ below.length = 2 := ⟨_, by cbv, rfl⟩
  have hfew : (p 1).FewRows db := by
    obtain ⟨below, hbelow, hlength⟩ := hbelow
    constructor
    · exact ⟨trivial, trivial⟩
    · intro below' hbelow'
      obtain rfl := Except.ok.inj (hbelow.symm.trans hbelow')
      omega
  have hone : (p 1).rows db = .ok [first, second] := by cbv
  have htwo : (p 2).rows db' = .ok [second, first] := by cbv
  rcases halike.memory_independent hrest hrest' hfew with
    ⟨rows, rows', hrun, hrun', hperm⟩ | ⟨f, n, g, m, hover, -⟩
  · exact ⟨db, db', p 1, p 2, rows, rows', first, second, hrest, hrest', halike, hfew, hrun, hrun',
      hperm, hone, htwo, by decide⟩
  · obtain ⟨q, db₁, hstart, -⟩ := Query.yields_of_rows hrest halike.builtOver.1 hone
    rw [hstart] at hover
    cases hover

end Plan
end RowStore
