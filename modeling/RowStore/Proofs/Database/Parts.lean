/-
# Operations keep what their parts keep

An operation on a database is put together from few parts: a page is read, a page is written back,
and the pool changes.  A condition that each of these keeps is kept by all that is made of them, and
one lemma says so for each operation (`Parts.fetch`, `Parts.flushAll`, `Works.delete` and so on).
`Parts` asks for what fetching and flushing are made of, `Works` also for changes to cached pages
and to the holds on them.

The condition may look at the changes that have been made to files up to there, so what is said is
said of operations with their journals.  One that looks at the database alone is kept by the
operations themselves (`Journaled.Upholds.run`).

A new page is another matter: the file of its table grows, and a condition may say how long it is.
So an insertion leads to whatever the new page leads to (`Works.insert`).

`Stays` is such a condition (`stays_works`).
-/
import RowStore.Proofs.Database.Journaling
import RowStore.Proofs.Database.Typing

namespace RowStore

namespace Database

/-- The condition says that tables and pages are in order, and is kept by what fetching and flushing
are made of.  `Found` says what is known of a page that has been read, so that it can be cached. -/
structure Parts (db₀ : Database) (Inv : Journal → Database → Prop) (Found : PageId → Page → Prop) :
    Prop where
  stays : ∀ journal db, Inv journal db → db₀.Stays db
  readPage : ∀ {id : TableId} {ref : TableRef}, db₀.ref? id = some ref → ∀ number journal,
    Upholds (Inv journal) (Found ⟨id, number⟩) (readPage ref number)
  writeBack : ∀ id, Journaled.Upholds Inv Any (Journaled.writeBack id)
  touch : ∀ id journal, Upholds (Inv journal) Any
    (modifyPool fun pool => { pool with cache := pool.cache.touch id })
  drop : ∀ id journal, Upholds (Inv journal) Any (drop id)
  load : ∀ {id : PageId} {page : Page}, Found id page → ∀ journal,
    Upholds (Inv journal) (fun frame => frame.page.Suits db₀ id) (load id page)

/-- The condition is kept by changes to pages, too, and does not tell who holds them. -/
structure Works (db₀ : Database) (Inv : Journal → Database → Prop) (Found : PageId → Page → Prop) :
    Prop extends Parts db₀ Inv Found where
  change : ∀ {id : PageId} {page : Page}, page.Suits db₀ id → ∀ journal,
    Upholds (Inv journal) Any (modifyPage id fun _ => page)
  hold : ∀ id journal, Upholds (Inv journal) Any (modifyPool fun pool =>
    { pool with cache := pool.cache.modify id Frame.pinned })
  unpin : ∀ p journal, Upholds (Inv journal) Any (unpin p)
  edit : ∀ p ops journal, Upholds (Inv journal) Any (modifyPinned p (Frame.edited ops))

variable {db₀ : Database} {Inv Inv' : Journal → Database → Prop} {Found : PageId → Page → Prop}

open Journaled (quietly)

/-! ## 1. Pages of files

Where a change to a file leads is asked for in the one case that there is a change: the page is
written, appended or cut off, and the entry of it is in the journal. -/

section Files

/-- A table that was there at first is there still. -/
theorem Stays.entry {db : Database} (h : db₀.Stays db) {id : TableId} {ref : TableRef}
    (href : db₀.ref? id = some ref) :
    db.Registered ∧ db.ref? id = some ref ∧ ∃ x, db.extent? id = some x := by
  have href' := (h.same.ref?_eq id).trans href
  exact ⟨h.typed.registered, href', h.typed.registered.exists_extent href'⟩

/-- **A page is read**: a read that succeeds is counted, whether the page can be decoded or not, and
what is asked of the page may follow from the bytes that it is decoded from. -/
theorem readPage_keeps {Good : Database → Prop} {Post : Page → Prop} {id : TableId} {ref : TableRef}
    (hstays : ∀ db, Good db → db₀.Stays db) (href : db₀.ref? id = some ref) (number : Nat)
    (hcounted : ∀ db, Good db → Good (db.counted id))
    (hfound : ∀ db x image page, Good db → db.extent? id = some x →
      x.read db.disk number = .ok image → Page.decode ⟨id, number⟩ x.layout image = .ok page →
      page.Suits db₀ ⟨id, number⟩ → Post page) :
    Upholds Good Post (readPage ref number) := by
  intro db h
  have hsuits := readPage_upholds href number db (hstays db h)
  obtain ⟨hreg, href', x, hx⟩ := (hstays db h).entry href
  rw [hreg.readPage_run href' hx] at hsuits ⊢
  cases hread : x.read db.disk number with
  | error fault => exact h
  | ok image =>
    simp only [hread] at hsuits
    cases hdecode : Page.decode ⟨id, number⟩ x.layout image with
    | error e =>
      simp only [hdecode]
      exact hcounted db h
    | ok page =>
      simp only [hdecode] at hsuits ⊢
      exact ⟨hcounted db h, hfound db x image page h hx hread hdecode hsuits.2⟩

/-- **A page is written back**, if it has changed. -/
theorem writeBack_leads (hstays : ∀ journal db, Inv journal db → db₀.Stays db)
    (hinv : ∀ journal db, Inv journal db → Inv' journal db) (id : PageId)
    (hwritten : ∀ journal db frame x disk, Inv journal db → db.pool.cache.peek? id = some frame →
      frame.page.dirty = true → db.extent? id.table = some x →
      x.write db.disk id.number frame.page.encode = .ok disk →
      db₀.Stays ((db.written id.table id.number disk).withCache
        (db.pool.cache.modify id Frame.cleaned)) →
      Inv' (journal ++ [⟨id.table, .write frame.page⟩])
        ((db.written id.table id.number disk).withCache
          (db.pool.cache.modify id Frame.cleaned))) :
    Journaled.Leads Inv Inv' Any (Journaled.writeBack id) := by
  intro journal db h
  have hback := (hstays journal db h).writeBack_run id
  have hend := writeBack_upholds id db (hstays journal db h)
  rw [Journaled.run_writeBack]
  cases hrun : (Database.writeBack id).run db with
  | error e db' =>
    rw [hrun] at hback
    cases hback with
    | refused hframe hdirty hx hwrite =>
      rw [Journaled.journal_writeBack_dirty hframe hdirty, Journaled.journal_entering_error hrun,
        List.append_nil]
      exact hinv journal db h
  | ok _ db' =>
    rw [hrun] at hback hend
    cases hback with
    | idle hclean =>
      rw [Journaled.journal_writeBack_idle hclean, List.append_nil]
      exact ⟨hinv journal db h, trivial⟩
    | written hframe hdirty hx hwrite =>
      rw [Journaled.journal_writeBack_dirty hframe hdirty, Journaled.journal_entering_ok hrun]
      exact ⟨hwritten journal db _ _ _ h hframe hdirty hx hwrite hend.1, trivial⟩

variable {id : TableId} {ref : TableRef}

theorem writePage_leads (hstays : ∀ journal db, Inv journal db → db₀.Stays db)
    (hinv : ∀ journal db, Inv journal db → Inv' journal db) (href : db₀.ref? id = some ref)
    (page : Page) (hwritten : ∀ journal db x disk, Inv journal db → db.extent? id = some x →
      x.write db.disk page.id.number page.encode = .ok disk →
      Inv' (journal ++ [⟨id, .write page⟩]) (db.written id page.id.number disk)) :
    Journaled.Leads Inv Inv' Any (Journaled.writePage id ref page) := by
  refine .entering fun journal db h => ?_
  obtain ⟨hreg, href', x, hx⟩ := (hstays journal db h).entry href
  rw [writePage, hreg.writeAt_run href' hx]
  cases hwrite : x.write db.disk page.id.number page.encode with
  | error fault => exact hinv journal db h
  | ok disk => exact ⟨hwritten journal db x disk h hx hwrite, trivial⟩

theorem appendPage_leads (hstays : ∀ journal db, Inv journal db → db₀.Stays db)
    (hinv : ∀ journal db, Inv journal db → Inv' journal db) (href : db₀.ref? id = some ref)
    (hwritten : ∀ journal db x disk, Inv journal db → db.extent? id = some x →
      x.write db.disk x.count (Page.zeroImage x.layout.pageSize) = .ok disk →
      Inv' (journal ++ [⟨id, .append⟩]) (db.written id x.count disk)) :
    Journaled.Leads Inv Inv' Any (Journaled.appendPage ref) := by
  refine .entering fun journal db h => ?_
  obtain ⟨hreg, href', x, hx⟩ := (hstays journal db h).entry href
  rw [hreg.appendPage_run href' hx]
  cases hwrite : x.write db.disk x.count (Page.zeroImage x.layout.pageSize) with
  | error fault => exact hinv journal db h
  | ok disk => exact ⟨hwritten journal db x disk h hx hwrite, trivial⟩

theorem removeLastPage_leads (hstays : ∀ journal db, Inv journal db → db₀.Stays db)
    (hinv : ∀ journal db, Inv journal db → Inv' journal db) (href : db₀.ref? id = some ref)
    (page : PageId) (hcut : ∀ journal db x disk, Inv journal db → db.extent? id = some x →
      x.count = page.number + 1 → x.cut db.disk page.number = .ok disk →
      Inv' (journal ++ [⟨id, .cut page.number⟩]) (db.shrunk id page.number disk)) :
    Journaled.Leads Inv Inv' Any (Journaled.removeLastPage ref page) := by
  intro journal db h
  obtain ⟨hreg, href', x, hx⟩ := (hstays journal db h).entry href
  obtain ⟨f, hfile, hd⟩ := hreg.file_run href' hx
  -- of the name of the page only the number counts
  have hname : removeLastPage ref page = removeLastPage ref ⟨id, page.number⟩ := rfl
  rw [Journaled.run_removeLastPage, Journaled.removeLastPage, Journaled.journal_bind_ok hfile,
    Journaled.journal_quietly, List.nil_append, hname, hd.count, hd.id]
  by_cases hcount : x.count = page.number + 1
  · rw [if_pos hcount]
    have hrun := hreg.removeLastPage_run href' hx hcount
    rw [hrun]
    cases hwrite : x.cut db.disk page.number with
    | error fault =>
      rw [hwrite] at hrun
      rw [Journaled.journal_entering_error hrun, List.append_nil]
      exact hinv journal db h
    | ok disk =>
      rw [hwrite] at hrun
      rw [Journaled.journal_entering_ok hrun]
      exact ⟨hcut journal db x disk h hx hcount hwrite, trivial⟩
  · rw [if_neg hcount, hreg.removeLastPage_idle href' hx hcount]
    exact ⟨(List.append_nil journal).symm ▸ hinv journal db h, trivial⟩

end Files

/-! ## 2. Fetching and flushing -/

namespace Parts

theorem tableOf (h : Parts db₀ Inv Found) (id : TableId) (journal : Journal) :
    Upholds (Inv journal) (fun ref => db₀.ref? id = some ref) (Database.tableOf id) :=
  tableOf_upholds (h.stays journal) id

theorem file (h : Parts db₀ Inv Found) {id : TableId} {ref : TableRef}
    (href : db₀.ref? id = some ref) (journal : Journal) :
    Upholds (Inv journal) (fun f => f.id = id ∧ db₀.layout? id = some f.layout)
      (Database.file ref) :=
  file_upholds (h.stays journal) href

theorem fetchMissing (h : Parts db₀ Inv Found) (id : PageId) :
    Journaled.Upholds Inv (fun frame => frame.page.Suits db₀ id) (Journaled.fetchMissing id) := by
  refine .bind (.quietly fun _ => chooseVictim_upholds) fun victim _ => ?_
  refine .bind (.quietly (h.tableOf id.table)) fun ref href => ?_
  refine .bind (.quietly (h.readPage href id.number)) fun page hpage => ?_
  have hload := Journaled.Upholds.quietly (h.load hpage)
  refine .bind ?_ fun _ (_ : True) => hload
  cases victim with
  | none => exact .pure trivial
  | some victim => exact .bind (h.writeBack victim) fun _ _ => .quietly (h.drop victim)

/-- **A page that is fetched** suits its table, whether it was cached or not. -/
theorem fetch (h : Parts db₀ Inv Found) (id : PageId) :
    Journaled.Upholds Inv (fun frame => frame.page.Suits db₀ id) (Journaled.fetch id) := by
  refine .bind .get fun db ⟨journal, hdb⟩ => ?_
  cases hframe : db.pool.cache.peek? id with
  | none => exact h.fetchMissing id
  | some frame =>
    exact .bind (.quietly (h.touch id)) fun _ _ => .pure ((h.stays journal db hdb).cached hframe)

theorem writeBackAll (h : Parts db₀ Inv Found) (ids : List PageId) :
    Journaled.Upholds Inv Any (Journaled.writeBackAll ids) := by
  induction ids with
  | nil => exact .pure trivial
  | cons id ids ih => exact .bind (h.writeBack id) fun _ _ => ih

theorem flushAll (h : Parts db₀ Inv Found) : Journaled.Upholds Inv Any Journaled.flushAll :=
  .bind .get fun _ _ => h.writeBackAll _

theorem flushPage (h : Parts db₀ Inv Found) (id : PageId) :
    Journaled.Upholds Inv Any (Journaled.flushPage id) := by
  refine .bind .get fun db _ => ?_
  split
  · exact .bind (h.writeBack id) fun _ _ => .pure trivial
  · exact .pure trivial

theorem discard (h : Parts db₀ Inv Found) (id : PageId) (journal : Journal) :
    Upholds (Inv journal) Any (Database.discard id) :=
  .bind .get fun _ _ => .bind (h.drop id journal) fun _ _ => .pure trivial

end Parts

/-! ## 3. Working on pages -/

namespace Works

theorem pin (h : Works db₀ Inv Found) (id : PageId) :
    Journaled.Upholds Inv Any (Journaled.pin id) :=
  .bind (h.fetch id) fun _ _ => .bind (.quietly (h.hold id)) fun _ _ => .pure trivial

theorem placeOn (h : Works db₀ Inv Found) {id : PageId} {page : Page} (hpage : page.Suits db₀ id)
    (row : Row) (journal : Journal) : Upholds (Inv journal) Any (Database.placeOn id page row) := by
  refine .bind (attempt_upholds _) fun (page', stored) hinsert => ?_
  exact .bind (h.change ((hpage.insert hinsert).mark true) journal) fun _ _ => .pure trivial

theorem placeOnFirst (h : Works db₀ Inv Found) (table : TableId) (row : Row) (numbers : List Nat) :
    Journaled.Upholds Inv Any (Journaled.placeOnFirst table row numbers) := by
  induction numbers with
  | nil => exact .pure trivial
  | cons number numbers ih =>
    refine .bind (h.fetch _) fun frame hframe => ?_
    split
    · exact .bind (.quietly (h.placeOn hframe row)) fun _ _ => .pure trivial
    · exact ih

theorem fetchAndPlace (h : Works db₀ Inv Found) (id : PageId) (row : Row) :
    Journaled.Upholds Inv Any (Journaled.fetchAndPlace id row) :=
  .bind (h.fetch id) fun _ hframe => .quietly fun journal =>
    .bind (h.placeOn hframe row journal) fun _ _ => .pure trivial

theorem takeBack (h : Works db₀ Inv Found) {ref : TableRef}
    (hcut : ∀ id, Journaled.Upholds Inv Any (Journaled.removeLastPage ref id)) (id : PageId)
    (e : Error) : Journaled.Upholds Inv Any (Journaled.takeBack ref id e) := by
  refine .bind (.quietly (h.drop id)) fun _ _ => ?_
  exact .bind (.orElse (hcut id) fun _ => .pure trivial) fun _ (_ : True) => .throw e

/-- A new page keeps the condition if lengthening the file does, and cutting it. -/
theorem placeOnNew (h : Works db₀ Inv Found) {ref : TableRef}
    (happend : Journaled.Upholds Inv Any (Journaled.appendPage ref))
    (hcut : ∀ id, Journaled.Upholds Inv Any (Journaled.removeLastPage ref id)) (row : Row) :
    Journaled.Upholds Inv Any (Journaled.placeOnNew ref row) :=
  .bind happend fun id _ => .orElse (h.fetchAndPlace id row) fun e => h.takeBack hcut id e

/-- **An insertion** leads to where a new page leads, if the condition is one of those that hold
there. -/
theorem insert (h : Works db₀ Inv Found) (hinv : ∀ journal db, Inv journal db → Inv' journal db)
    {table : TableId} (hnew : ∀ ref row, db₀.ref? table = some ref →
      Journaled.Leads Inv Inv' Any (Journaled.placeOnNew ref row)) (row : Row) :
    Journaled.Leads Inv Inv' Any (Journaled.insert table row) := by
  have hsame : ∀ journal db, Inv journal db → Inv journal db := fun _ _ h => h
  have htable := Journaled.Upholds.quietly (h.tableOf table)
  refine (htable.leads hsame).bind hinv fun ref href => ?_
  have hfile : Journaled.Upholds Inv Any (quietly (Database.file ref)) :=
    .quietly fun _ => file_any ref
  refine (hfile.leads hsame).bind hinv fun f _ => .refuse hinv ?_
  refine ((h.placeOnFirst f.id row _).leads hsame).bind hinv fun placed _ => ?_
  cases placed with
  | none => exact hnew ref row href
  | some placed => exact (Journaled.Upholds.pure trivial).leads hinv

theorem deleteInFile (h : Works db₀ Inv Found) (ref : TableRef) (row : Row) :
    Journaled.Upholds Inv Any (Journaled.deleteInFile ref row) := by
  unfold Journaled.deleteInFile
  split
  · exact .throw _
  · rename_i place _
    have hsame : ∀ journal db, Inv journal db → Inv journal db := fun _ _ h => h
    refine .bind (.quietly fun _ => file_any ref) fun f (_ : True) => ?_
    refine .refuse hsame (.refuse hsame ?_)
    refine Journaled.Upholds.bind (h.fetch place.page) fun frame hframe => ?_
    refine .bind (.quietly fun _ => attempt_upholds _) fun (page', freed) hdelete => ?_
    have hchange := h.change ((hframe.delete hdelete).mark true)
    exact .bind (.quietly hchange) fun _ _ => .pure trivial

theorem delete (h : Works db₀ Inv Found) (row : Row) :
    Journaled.Upholds Inv Any (Journaled.delete row) := by
  unfold Journaled.delete
  split
  · exact .throw _
  · exact .bind (.quietly (h.tableOf _)) fun ref _ => h.deleteInFile ref row

end Works

/-! ## 4. Tables and pages stay in order -/

theorem stays_works : Works db₀ (fun _ => db₀.Stays) fun id page => page.Suits db₀ id where
  stays _ _ h := h
  readPage href number _ := readPage_upholds href number
  writeBack id := .of_run (Journaled.run_writeBack id) (writeBack_upholds id)
  touch id _ := touch_upholds id
  drop id _ := drop_upholds id
  load hpage _ := load_upholds hpage
  change hpage _ := modifyPage_upholds _ fun _ _ => hpage
  hold id _ := modifyCache_upholds id fun _ h => h
  unpin p _ := unpin_upholds p
  edit p ops _ := modifyPinned_upholds p fun _ _ h => h.performAll ops

theorem appendPage_stays (ref : TableRef) :
    Journaled.Upholds (fun _ => db₀.Stays) Any (Journaled.appendPage ref) :=
  .of_run rfl (appendPage_upholds ref)

theorem placeOnNew_stays (ref : TableRef) (row : Row) :
    Journaled.Upholds (fun _ => db₀.Stays) Any (Journaled.placeOnNew ref row) := by
  refine stays_works.placeOnNew (appendPage_stays ref) (fun id => ?_) row
  exact .of_run (Journaled.run_removeLastPage ref id) (removeLastPage_upholds ref id)

end Database
end RowStore
