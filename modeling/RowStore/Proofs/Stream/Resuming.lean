/-
# Streams that fail and go on

A stream that fails when it is asked for a row may still know where it stands, so that it can be
asked again and goes on from there.  `RowStream.Resumes` says so of all its calls: it hands out the
rows of a list one after the other, however often it fails in between.

Who takes several rows at once from such a stream gets all of them or an error
(`Resumes.take`).  With the error it does not get the rows that were handed out before, and the
stream stands behind these.

A scan keeps the page number that it could not fetch.  So it resumes as long as the rows of its table
stay as they are, whatever else is done to the database (`Scan.resumes`).
-/
import RowStore.Proofs.Stream.Passing

namespace RowStore

/-! ## 1. Resuming -/

namespace RowStream

variable {σ : Type}

/-- What comes of asking a stream for a row that has `rest` left: it hands out the first of these, or
fails and has them all left still. -/
inductive Asked (Ok : Database → Prop) (At : σ → List Row → Prop) (rest : List Row) :
    EStateM.Result Error (σ × Database) (Option Row) → Prop
  | ok {state : σ} {db : Database} (hok : Ok db) (hat : At state rest.tail) :
      Asked Ok At rest (.ok rest.head? (state, db))
  | failed {e : Error} {state : σ} {db : Database} (hok : Ok db) (hat : At state rest) :
      Asked Ok At rest (.error e (state, db))

/-- What comes of taking up to `count` rows.  The rows that are gone with an error are fewer. -/
inductive Taken (Ok : Database → Prop) (At : σ → List Row → Prop) (count : Nat) (rest : List Row) :
    EStateM.Result Error (σ × Database) (List Row) → Prop
  | ok {state : σ} {db : Database} (hok : Ok db) (hat : At state (rest.drop count)) :
      Taken Ok At count rest (.ok (rest.take count) (state, db))
  | failed {gone left : List Row} {e : Error} {state : σ} {db : Database}
      (hrest : rest = gone ++ left) (hgone : gone.length < count) (hok : Ok db)
      (hat : At state left) : Taken Ok At count rest (.error e (state, db))

/-- The stream has `rest` left of `rows`, on databases that are `Ok`; asked for a row it may fail,
but does not lose any. -/
structure Resumes (s : RowStream σ) (Ok : Database → Prop) (rows : List Row)
    (At : σ → List Row → Prop) : Prop where
  schema : ∀ row ∈ rows, row.schema = s.schema
  suffix : ∀ state rest, At state rest → rest <:+ rows
  start : ∀ state db, Ok db → ∃ state' db',
    s.start.run (state, db) = .ok () (state', db') ∧ Ok db' ∧ At state' rows
  rewind : ∀ state db rest, Ok db → At state rest → ∃ state' db',
    s.rewind.run (state, db) = .ok () (state', db') ∧ Ok db' ∧ At state' rows
  next : ∀ state db rest, Ok db → At state rest → Asked Ok At rest (s.next.run (state, db))
  bound : ∀ state db rest, Ok db → At state rest → rows.length ≤ s.bound state db

namespace Resumes

variable {s : RowStream σ} {Ok : Database → Prop} {rows : List Row} {At : σ → List Row → Prop}

theorem schema_of_at (h : s.Resumes Ok rows At) {state : σ} {rest : List Row}
    (hat : At state rest) : ∀ row ∈ rest, row.schema = s.schema :=
  fun row hrow => h.schema row ((h.suffix state rest hat).subset hrow)

/-- **Taking rows** gives the first of those that are left, or fails and has dropped some.  By
induction on how many are asked for. -/
theorem take (h : s.Resumes Ok rows At) (count : Nat) {rest : List Row} {state : σ} {db : Database}
    (hok : Ok db) (hat : At state rest) :
    Taken Ok At count rest ((s.take count).run (state, db)) := by
  induction count generalizing rest state db with
  | zero => exact .ok hok hat
  | succ count ih =>
    have hnext := h.next state db rest hok hat
    simp only [RowStream.take, EStateM.run_bind]
    generalize s.next.run (state, db) = r at hnext
    cases hnext with
    | failed hok' hat' => exact .failed (List.nil_append rest).symm (Nat.succ_pos count) hok' hat'
    | @ok state₁ db₁ hok₁ hat₁ =>
      cases rest with
      | nil => exact .ok hok₁ hat₁
      | cons row rest =>
        have htake := ih hok₁ hat₁
        simp only [List.head?_cons, EStateM.run_bind]
        generalize (s.take count).run (state₁, db₁) = r at htake
        cases htake with
        | ok hok₂ hat₂ => exact .ok hok₂ hat₂
        | @failed gone left e state₂ db₂ hrest hgone hok₂ hat₂ =>
          have hrest' : row :: rest = (row :: gone) ++ left := congrArg (List.cons row) hrest
          exact .failed hrest' (Nat.succ_lt_succ hgone) hok₂ hat₂

end Resumes

end RowStream

/-! ## 2. Tables that stay as they are -/

/-- The table has as many pages as in the first database, and the same rows on each of them. -/
structure Database.SameRows (db db' : Database) (table : TableId) : Prop where
  count : db'.pageCount? table = db.pageCount? table
  pages : ∀ count, db.pageCount? table = some count → ∀ number < count,
    db'.pageRows ⟨table, number⟩ = db.pageRows ⟨table, number⟩

/-- Behind the first database, in which these tables have kept their rows. -/
structure Database.Keeps (db₀ : Database) (tables : List TableId) (db : Database) : Prop where
  sound : Sound db
  settled : Settled db
  ref? : ∀ id, db.ref? id = db₀.ref? id
  same : ∀ table ∈ tables, db₀.SameRows db table

theorem Database.Keeps.refl {db : Database} {tables : List TableId} (hsound : Sound db)
    (hsettled : Settled db) : db.Keeps tables db :=
  ⟨hsound, hsettled, fun _ => rfl, fun _ _ => ⟨rfl, fun _ _ _ _ => rfl⟩⟩

theorem Database.Keeps.quiets {db₀ db db' : Database} {tables : List TableId}
    (h : db₀.Keeps tables db) (hq : Quiets db db') : db₀.Keeps tables db' := by
  obtain ⟨hsettled, hcontent⟩ := h.settled.quiets h.sound hq
  refine ⟨h.sound.quiets hq, hsettled, fun id => (hq.steps.ref? id).trans (h.ref? id), ?_⟩
  intro table htable
  have hsame := h.same table htable
  constructor
  · rw [pageCount?_congr (h.sound.extent?_quiets hq), hsame.count]
  · intro count hcount number hlt
    rw [pageRows_congr hcontent, hsame.pages count hcount number hlt]

/-- The rows on a page of a table have its schema. -/
theorem Sound.schema_pageRows {db : Database} (h : Sound db) {id : PageId} {x : Extent}
    (hx : db.extent? id.table = some x) :
    ∀ row ∈ db.pageRows id, row.schema = x.layout.schema := by
  have hvalid : ∀ page : Page, page.Valid → page.layout = x.layout →
      ∀ row ∈ page.rows, row.schema = x.layout.schema :=
    fun page hv hlayout row hrow =>
      (hv.schema_of_mem hrow).trans (congrArg Layout.schema hlayout)
  cases hframe : db.pool.cache.peek? id with
  | some frame =>
    obtain ⟨x', hx', hadmits⟩ := h.cached hframe
    obtain rfl : x = x' := Option.some.inj (hx.symm.trans hx')
    rw [Database.pageRows_of_cached hframe]
    exact hvalid frame.page hadmits.valid hadmits.layout_eq
  | none =>
    rw [Database.pageRows, Database.content?_of_absent hframe, Option.map_map]
    cases hpage : db.stored? id with
    | none =>
      intro row hrow
      cases hrow
    | some page =>
      obtain ⟨x', image, hx', -, hdecode⟩ := Database.exists_of_stored? hpage
      obtain rfl : x = x' := Option.some.inj (hx.symm.trans hx')
      refine hvalid page (.of_decode hdecode) ?_
      obtain ⟨-, slots, -, rfl⟩ := Page.decode_cases hdecode
      rfl

/-! ## 3. Scans -/

namespace Scan

variable {db db₀ : Database} {table : TableId} {count number : Nat} {cursor cursor' : Cursor}
  {taken : List Row}

/-- What is left comes up to any page and then from there. -/
theorem remains_append (hle : cursor.nextPage ≤ number) (hwithin : number ≤ count) :
    remains db table count cursor =
      remains db table number cursor ++ remains db table count ⟨number, []⟩ := by
  have htake : (List.range count).take number = List.range number := by
    rw [List.take_range, Nat.min_eq_left hwithin]
  have hlength : cursor.nextPage ≤ (List.range number).length := by rwa [List.length_range]
  have hpages : (List.range count).drop cursor.nextPage =
      (List.range number).drop cursor.nextPage ++ (List.range count).drop number := by
    rw [← List.drop_append_of_le_length hlength, ← htake, List.take_append_drop]
  rw [remains, remains, remains, hpages, List.flatMap_append, List.nil_append, List.append_assoc]

/-- A scan that goes on has less left by what it hands out. -/
theorem Passed.remains (hp : Passed db table count cursor cursor' taken)
    (hpage : cursor.nextPage ≤ count) :
    cursor'.nextPage ≤ count ∧
      remains db table count cursor = taken ++ remains db table count cursor' := by
  have hwithin : cursor'.nextPage ≤ count := by
    have hmax := hp.within
    rwa [Nat.max_eq_right hpage] at hmax
  refine ⟨hwithin, ?_⟩
  rw [remains_append hp.le hwithin, hp.rows, List.append_assoc]
  rfl

/-- The rows that are left do not depend on the rest of the database. -/
theorem remains_keeps (h : db₀.SameRows db table) (hcount : db₀.pageCount? table = some count)
    (cursor : Cursor) :
    remains db table count cursor = remains db₀ table count cursor := by
  rw [remains, remains]
  refine congrArg (cursor.rows ++ ·) (List.flatMap_congr fun number hnumber => ?_)
  have hlt := List.mem_range.mp (List.mem_of_mem_drop hnumber)
  exact h.pages count hcount number hlt

/-- The scan stands somewhere in its table, which had `count` pages in the database, and has the
rows left that follow. -/
def Before (db₀ : Database) (table : TableId) (count : Nat) (state : State) (rest : List Row) :
    Prop :=
  ∃ cursor, state = some cursor ∧ cursor.nextPage ≤ count ∧
    rest = remains db₀ table count cursor ∧ rest <:+ db₀.tableRows table

section

variable {tables : List TableId} {ref : TableRef} {x : Extent}

theorem exists_extent_keeps (htable : table ∈ tables) (href : db₀.ref? table = some ref)
    (hx : db₀.extent? table = some x) (h : db₀.Keeps tables db) :
    ∃ y, db.extent? table = some y ∧ y.count = x.count := by
  obtain ⟨y, hy⟩ := h.sound.registered.exists_extent ((h.ref? table).trans href)
  have hcount := (h.same table htable).count
  rw [Database.pageCount?_eq, Database.pageCount?_eq, hx, hy, Option.map_some,
    Option.map_some] at hcount
  exact ⟨y, hy, Option.some.inj hcount⟩

theorem next_asked (htable : table ∈ tables) (href : db₀.ref? table = some ref)
    (hx : db₀.extent? table = some x) (h : db₀.Keeps tables db) {state : State} {rest : List Row}
    (hbefore : Before db₀ table x.count state rest) :
    RowStream.Asked (db₀.Keeps tables) (Before db₀ table x.count) rest
      ((next ref).run (state, db)) := by
  obtain ⟨cursor, rfl, hpage, rfl, hsuffix⟩ := hbefore
  obtain ⟨y, hy, hycount⟩ := exists_extent_keeps htable href hx h
  have hnext := next_advanced h.sound h.settled ((h.ref? table).trans href) hy cursor
  rw [hycount] at hnext
  -- what is passed now is what was to be passed in the first database
  have hpassed : ∀ {cursor' taken}, Passed db table x.count cursor cursor' taken →
      cursor'.nextPage ≤ x.count ∧
        remains db₀ table x.count cursor = taken ++ remains db₀ table x.count cursor' := by
    intro cursor' taken hp
    obtain ⟨hpage', hremains⟩ := hp.remains hpage
    have hsame := h.same table htable
    have hcount : db₀.pageCount? table = some x.count := by
      rw [Database.pageCount?_eq, hx, Option.map_some]
    rw [remains_keeps hsame hcount, remains_keeps hsame hcount] at hremains
    exact ⟨hpage', hremains⟩
  generalize (next ref).run (some cursor, db) = r at hnext
  cases hnext with
  | @row row cursor' db' hq hp =>
    obtain ⟨hpage', hremains⟩ := hpassed hp
    rw [hremains] at hsuffix ⊢
    exact .ok (h.quiets hq) ⟨cursor', rfl, hpage', rfl, (List.suffix_append [row] _).trans hsuffix⟩
  | @ended number db' hq hp hend =>
    obtain ⟨hpage', hremains⟩ := hpassed hp
    have hnil : remains db₀ table x.count (⟨number, []⟩ : Cursor) = [] := remains_behind hend
    rw [hremains, hnil]
    exact .ok (h.quiets hq) ⟨⟨number, []⟩, rfl, hpage', hnil.symm, List.nil_suffix⟩
  | @failed e number db' hq hp =>
    obtain ⟨hpage', hremains⟩ := hpassed hp
    exact .failed (h.quiets hq) ⟨⟨number, []⟩, rfl, hpage', hremains, hsuffix⟩

theorem tableRows_eq_remains (hx : db₀.extent? table = some x) :
    db₀.tableRows table = remains db₀ table x.count ⟨0, []⟩ := by
  rw [Database.tableRows, Database.pageCount?_eq, hx, remains]
  rfl

theorem before_first (hx : db₀.extent? table = some x) :
    Before db₀ table x.count (some ⟨0, []⟩) (db₀.tableRows table) :=
  ⟨⟨0, []⟩, rfl, Nat.zero_le _, tableRows_eq_remains hx, List.suffix_refl _⟩

/-- **A scan resumes** as long as its table keeps its rows, whoever holds pages, and whatever is done
to other tables. -/
theorem resumes (htable : table ∈ tables) (hsound : Sound db₀) (href : db₀.ref? table = some ref)
    (hx : db₀.extent? table = some x) :
    (stream ref x.layout.schema).Resumes (db₀.Keeps tables) (db₀.tableRows table)
      (Before db₀ table x.count) where
  schema := by
    intro row hrow
    obtain ⟨number, -, hrow⟩ := List.mem_flatMap.mp hrow
    exact hsound.schema_pageRows hx row hrow
  suffix := by
    rintro state rest ⟨cursor, -, -, -, hsuffix⟩
    exact hsuffix
  start state db hok := ⟨some ⟨0, []⟩, db, rfl, hok, before_first hx⟩
  rewind := by
    rintro state db rest hok ⟨cursor, rfl, -, -, -⟩
    exact ⟨some ⟨0, []⟩, db, rfl, hok, before_first hx⟩
  next state db rest hok hbefore := next_asked htable href hx hok hbefore
  bound := by
    rintro state db rest hok ⟨cursor, rfl, -, -, -⟩
    obtain ⟨y, hy, hycount⟩ := exists_extent_keeps htable href hx hok
    have hbound := le_pageBound hok.sound ((hok.ref? table).trans href) hy
    have hlength := length_remains_le hsound table x.count ⟨0, []⟩
    have hmul := Nat.mul_le_mul_right 65536 (hycount ▸ hbound)
    rw [← tableRows_eq_remains hx, List.length_nil, Nat.zero_add] at hlength
    change _ ≤ cursor.rows.length + pageBound db ref * 65536
    omega

end

end Scan
end RowStore
