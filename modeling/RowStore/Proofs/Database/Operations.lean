/-
# What operations do to a database, above all when they fail

Every operation of a database is a run of steps, whether it succeeds or fails.  More can be said of
one that fails (`Failing`): all that it has done are quiet steps, which show nowhere; or it has
appended a page for its row, could not have the page, and has cut it off again.

So an operation is told by two things, what it is when it succeeds and what it is when it fails
(`Acted`), and each operation of a database has one lemma that says them: `Sound.flushPage_acted`,
`Sound.insert_acted` and so on.  A scan and a flush are quiet in either case.
-/
import RowStore.Proofs.Database.Outcomes
import RowStore.Proofs.Database.Rows

namespace RowStore

/-! ## 1. Failing -/

/-- What an operation that fails may have done. -/
inductive Failing (db db' : Database) : Prop
  | quiet (h : Quiets db db')
  /-- A page was appended and cut off again. -/
  | undone {table : TableId} {x : Extent} {db₁ db₂ : Database} {disk disk' : Disk}
      (before : Quiets db db₁) (hx : db₁.extent? table = some x)
      (hwrite : x.write db₁.disk x.count (Page.zeroImage x.layout.pageSize) = .ok disk)
      (between : Quiets (db₁.written table x.count disk) db₂)
      (hx' : db₂.extent? table = some { x with count := x.count + 1 })
      (habsent : db₂.pool.cache.peek? ⟨table, x.count⟩ = none)
      (hcut : x.cut db₂.disk x.count = .ok disk') (hdb' : db' = db₂.shrunk table x.count disk')

namespace Failing

variable {db db₁ db' : Database}

theorem refl : Failing db db := .quiet .refl

/-- What was done before that was quiet. -/
theorem after (hq : Quiets db db₁) (h : Failing db₁ db') : Failing db db' := by
  cases h with
  | quiet h => exact .quiet (hq.trans h)
  | undone before hx hwrite between hx' habsent hcut hdb' =>
    exact .undone (hq.trans before) hx hwrite between hx' habsent hcut hdb'

theorem steps (h : Failing db db') : Steps db db' := by
  cases h with
  | quiet h => exact h.steps
  | undone before hx hwrite between hx' habsent hcut hdb' =>
    rw [hdb']
    exact ((before.steps.tail (.append hx hwrite)).trans between.steps).tail
      (.shrink hx' rfl habsent hcut)

end Failing

/-- What an operation has done, when it ended and how. -/
def Acted {α : Type} (db : Database) : EStateM.Result Error Database α → Prop
  | .ok _ db' => Steps db db'
  | .error _ db' => Failing db db'

namespace Acted

variable {α : Type} {db db₁ : Database}

theorem of_quiets {r : EStateM.Result Error Database α} (h : Quiets db (endState r)) :
    Acted db r := by
  cases r with
  | ok a db' => exact h.steps
  | error e db' => exact .quiet h

/-- What was done before that was quiet. -/
theorem after {r : EStateM.Result Error Database α} (hq : Quiets db db₁) (h : Acted db₁ r) :
    Acted db r := by
  cases r with
  | ok a db' => exact hq.steps.trans h
  | error e db' => exact Failing.after hq h

end Acted

/-- A cached page changes, and says so. -/
theorem Step.of_modifyPage {db : Database} {id : PageId} {frame : Frame}
    (hframe : db.pool.cache.peek? id = some frame) {page : Page} (hv : page.Valid)
    (hid : page.id = frame.page.id) (hlayout : page.layout = frame.page.layout)
    (hbefore : page.before = frame.page.before) :
    Step db (endState ((Database.modifyPage id fun _ => page.mark true).run db)) :=
  .change _ hframe (hv.mark true) hid hlayout hbefore rfl rfl rfl

namespace Sound

variable {db : Database}

/-! ## 2. Flushing -/

theorem writeBackAll_quiets (h : Sound db) (ids : List PageId) :
    Quiets db (endState ((Database.writeBackAll ids).run db)) := by
  induction ids generalizing db with
  | nil => exact .refl
  | cons id ids ih =>
    have hback := h.writeBack_run id
    simp only [Database.writeBackAll, EStateM.run_bind]
    generalize (Database.writeBack id).run db = r at hback ⊢
    cases r with
    | error e db' => exact hback.quiets
    | ok _ db' => exact hback.quiets_of_ok.trans (ih (h.quiets hback.quiets_of_ok))

theorem flushAll_quiets (h : Sound db) : Quiets db (endState (Database.flushAll.run db)) := by
  simp only [Database.flushAll, EStateM.run_bind, EStateM.run_get]
  exact h.writeBackAll_quiets _

theorem flushPage_quiets (h : Sound db) (id : PageId) :
    Quiets db (endState ((Database.flushPage id).run db)) := by
  cases hc : db.pool.cache.contains id with
  | false =>
    simp only [Database.flushPage, EStateM.run_bind, EStateM.run_get, hc, Bool.false_eq_true,
      if_false, EStateM.run_pure]
    exact .refl
  | true =>
    have hback := h.writeBack_run id
    simp only [Database.flushPage, EStateM.run_bind, EStateM.run_get, hc, if_true]
    generalize (Database.writeBack id).run db = r at hback ⊢
    cases r with
    | error e db' => exact hback.quiets
    | ok _ db' => exact hback.quiets_of_ok

/-! ## 3. Placing a row on a page -/

/-- A cached page is in order. -/
theorem valid_page (h : Sound db) {id : PageId} {frame : Frame}
    (hframe : db.pool.cache.peek? id = some frame) : frame.page.Valid := by
  obtain ⟨x, -, hadmits⟩ := h.cached hframe
  exact hadmits.valid

/-- A row that cannot be placed on a page leaves everything as it was. -/
theorem placeOn_acted (h : Sound db) {id : PageId} {frame : Frame}
    (hframe : db.pool.cache.peek? id = some frame) (row : Row) :
    match (Database.placeOn id frame.page row).run db with
    | .ok _ db' => Step db db'
    | .error _ db' => db' = db := by
  cases hi : frame.page.insert row with
  | error e =>
    simp only [Database.placeOn, EStateM.run_bind, hi]
    rfl
  | ok result =>
    obtain ⟨page, stored⟩ := result
    obtain ⟨-, slot, -, -, hpage⟩ := Page.insert_cases hi
    simp only [Database.placeOn, EStateM.run_bind, hi, Database.attempt, EStateM.run_pure]
    exact Step.of_modifyPage hframe ((h.valid_page hframe).insert hi) (by rw [hpage]; rfl)
      (by rw [hpage]; rfl) (by rw [hpage]; rfl)

/-! ## 4. Inserting -/

/-- What the walk through the pages of a table can come to. -/
inductive Walked (db : Database) : EStateM.Result Error Database (Option (PageId × Row)) → Prop
  | failed {e : Error} {db' : Database} (hq : Quiets db db') : Walked db (.error e db')
  | full {db' : Database} (hq : Quiets db db') : Walked db (.ok none db')
  | placed {found : PageId × Row} {db' : Database} (hs : Steps db db') :
      Walked db (.ok (some found) db')

theorem Walked.after {db₁ : Database} {r : EStateM.Result Error Database (Option (PageId × Row))}
    (hq : Quiets db db₁) (h : Walked db₁ r) : Walked db r := by
  cases h with
  | failed hq' => exact .failed (hq.trans hq')
  | full hq' => exact .full (hq.trans hq')
  | placed hs => exact .placed (hq.steps.trans hs)

/-- **The walk** is quiet up to the page on which the row is placed.  By induction on the pages that
are left to look at. -/
theorem placeOnFirst_walked (h : Sound db) (table : TableId) (row : Row) (numbers : List Nat) :
    Walked db ((Database.placeOnFirst table row numbers).run db) := by
  induction numbers generalizing db with
  | nil => exact .full .refl
  | cons number numbers ih =>
    have hfetch := h.fetch_run ⟨table, number⟩
    simp only [Database.placeOnFirst, EStateM.run_bind]
    generalize (Database.fetch ⟨table, number⟩).run db = r at hfetch ⊢
    cases r with
    | error e db' => exact .failed (hfetch.quiets_of_error h)
    | ok frame db' =>
      have hq := hfetch.quiets_of_ok h
      have h' := h.quiets hq
      by_cases hfree : 0 < frame.page.freeCount
      · have hplace := h'.placeOn_acted (hfetch.cached h) row
        simp only [if_pos hfree, EStateM.run_bind]
        generalize (Database.placeOn ⟨table, number⟩ frame.page row).run db' = placed at hplace ⊢
        cases placed with
        | error e db'' =>
          obtain rfl : db'' = db' := hplace
          exact .failed hq
        | ok stored db'' => exact .placed (hq.steps.tail hplace)
      · simp only [if_neg hfree]
        exact (ih h').after hq

end Sound

/-- What fails is handled in the state that it has left. -/
theorem run_tryCatch_error {ε σ α : Type} {x : EStateM ε σ α} {handle : ε → EStateM ε σ α}
    {s s' : σ} {e : ε} (h : x.run s = .error e s') :
    (tryCatch x handle).run s = (handle e).run s' := by
  have hx : x s = .error e s' := h
  change EStateM.tryCatch x handle s = handle e s'
  unfold EStateM.tryCatch
  simp only [hx]
  rfl

/-! The parts of an insertion on a new page: the row is put there, or the page is taken back. -/

namespace Database

def fetchAndPlace (id : PageId) (row : Row) : DbM (PageId × Row) := do
  let frame ← fetch id
  let row ← placeOn id frame.page row
  return (id, row)

/-- A page is taken back because of an error, whether that succeeds or not. -/
def takeBack (ref : TableRef) (id : PageId) (e : Error) : DbM (PageId × Row) := do
  drop id
  try removeLastPage ref id catch _ => pure ()
  throw e

theorem placeOnNew_run (db : Database) (ref : TableRef) (row : Row) :
    (placeOnNew ref row).run db = match (appendPage ref).run db with
      | .error e db => .error e db
      | .ok id db => match (fetchAndPlace id row).run db with
        | .ok placed db => .ok placed db
        | .error e db => (takeBack ref id e).run db := by
  simp only [placeOnNew, EStateM.run_bind]
  cases (appendPage ref).run db with
  | error e db₁ => rfl
  | ok id db₁ =>
    simp only [fetchAndPlace, EStateM.run_bind]
    cases hfetch : (fetch id).run db₁ with
    | error e db₂ =>
      rw [run_tryCatch_error (by simp only [EStateM.run_bind, hfetch]; rfl)]
      simp only [takeBack, EStateM.run_bind]
      cases (drop id).run db₂ with
      | error e' db₃ => rfl
      | ok _ db₃ =>
        simp only
        cases (tryCatch (removeLastPage ref id) fun _ => pure ()).run db₃ <;> rfl
    | ok frame db₂ =>
      simp only
      cases hplace : (placeOn id frame.page row).run db₂ with
      | ok stored db₃ =>
        rw [run_tryCatch_ok (by simp only [EStateM.run_bind, hfetch, hplace]; rfl)]
        rfl
      | error e db₃ =>
        rw [run_tryCatch_error (by simp only [EStateM.run_bind, hfetch, hplace]; rfl)]
        simp only [takeBack, EStateM.run_bind]
        cases (drop id).run db₃ with
        | error e' db₄ => rfl
        | ok _ db₄ =>
          simp only
          cases (tryCatch (removeLastPage ref id) fun _ => pure ()).run db₄ <;> rfl

end Database

namespace Sound

variable {db : Database} {table : TableId} {ref : TableRef} {x : Extent}

/-- A page that was appended and is not cached is cut off. -/
theorem removeLastPage_acted (h : Sound db) (href : db.ref? table = some ref) {number : Nat}
    (hx : db.extent? table = some { x with count := number + 1 })
    (hend : ¬ db.disk.Endless x.path) :
    ∃ disk, x.cut db.disk number = .ok disk ∧
      (Database.removeLastPage ref ⟨table, number⟩).run db =
        .ok () (db.shrunk table number disk) := by
  obtain ⟨disk, hcut⟩ := (h.carried hx).exists_cut hend (number * x.layout.pageSize)
  have hrun := h.registered.removeLastPage_run href hx rfl
  have hcut' : Extent.cut { x with count := number + 1 } db.disk number = .ok disk := hcut
  simp only [hcut'] at hrun
  exact ⟨disk, hcut, hrun⟩

/-- **An appended page can be taken back**, whatever has been quiet since then and as long as the
page is clean and nobody holds it. -/
theorem takeBack_acted (h : Sound db) (href : db.ref? table = some ref)
    (hx : db.extent? table = some x) {disk : Disk}
    (hwrite : x.write db.disk x.count (Page.zeroImage x.layout.pageSize) = .ok disk)
    {db₂ : Database} (hq : Quiets (db.written table x.count disk) db₂)
    (hidle : ∀ frame, db₂.pool.cache.peek? ⟨table, x.count⟩ = some frame →
      frame.page.dirty = false ∧ frame.pins = 0) (e : Error) :
    Acted db ((Database.takeBack ref ⟨table, x.count⟩ e).run db₂) := by
  have happend : Step db (db.written table x.count disk) := .append hx hwrite
  have h₁ := h.step happend
  obtain ⟨hx₁, hend₁⟩ := Database.extent?_append h hx hwrite
  -- dropping the page is quiet, too
  obtain ⟨db₃, hdrop, hq₃, habsent⟩ : ∃ db₃, (Database.drop ⟨table, x.count⟩).run db₂ = .ok () db₃ ∧
      Quiets (db.written table x.count disk) db₃ ∧
      db₃.pool.cache.peek? ⟨table, x.count⟩ = none := by
    have hord := (h₁.quiets hq).inOrder
    cases hframe : db₂.pool.cache.peek? ⟨table, x.count⟩ with
    | none => exact ⟨db₂, Database.drop_run_absent hord hframe, hq, hframe⟩
    | some frame =>
      obtain ⟨hclean, hpins⟩ := hidle frame hframe
      exact ⟨_, Database.drop_run hord hframe hpins, hq.tail (.evict hframe hclean hpins),
        (hord.peek?_erase _ _).trans (if_pos rfl)⟩
  have hx₃ := (congrFun (h₁.extent?_quiets hq₃) table).trans hx₁
  have href₃ := (Steps.ref? (hq₃.steps.head happend) table).trans href
  have hend₃ : ¬ db₃.disk.Endless x.path := fun hyes =>
    hend₁ ((h₁.endless_quiets hq₃ x.path).mp hyes)
  obtain ⟨disk', hcut, hrun⟩ := (h₁.quiets hq₃).removeLastPage_acted href₃ hx₃ hend₃
  simp only [Database.takeBack, EStateM.run_bind, hdrop, run_tryCatch_ok hrun]
  exact .undone .refl hx hwrite hq₃ hx₃ habsent hcut rfl

/-- **A new page** for the row is there afterwards, or is cut off again. -/
theorem placeOnNew_acted (h : Sound db) (href : db.ref? table = some ref)
    (hx : db.extent? table = some x) (row : Row) :
    Acted db ((Database.placeOnNew ref row).run db) := by
  rw [Database.placeOnNew_run, h.registered.appendPage_run href hx]
  cases hwrite : x.write db.disk x.count (Page.zeroImage x.layout.pageSize) with
  | error fault => exact Failing.refl
  | ok disk =>
    have happend : Step db (db.written table x.count disk) := .append hx hwrite
    have h₁ := h.step happend
    have habsent : (db.written table x.count disk).pool.cache.peek? ⟨table, x.count⟩ = none :=
      Database.absent_of_append h hx hwrite
    have hfetch := h₁.fetch_run ⟨table, x.count⟩
    simp only [Database.fetchAndPlace, EStateM.run_bind]
    generalize (Database.fetch ⟨table, x.count⟩).run (db.written table x.count disk) = r
      at hfetch ⊢
    cases r with
    | error e db₂ =>
      refine h.takeBack_acted href hx hwrite (hfetch.quiets_of_error h₁) (fun frame hframe => ?_) e
      have hpool : db₂.pool = (db.written table x.count disk).pool := by
        rcases hfetch.of_error with rfl | rfl <;> rfl
      rw [hpool, habsent] at hframe
      cases hframe
    | ok frame db₂ =>
      have hq := hfetch.quiets_of_ok h₁
      have hframe := hfetch.cached h₁
      have hplace := (h₁.quiets hq).placeOn_acted hframe row
      simp only
      generalize (Database.placeOn ⟨table, x.count⟩ frame.page row).run db₂ = placed at hplace ⊢
      cases placed with
      | ok stored db₃ => exact (hq.steps.head happend).tail hplace
      | error e db₃ =>
        obtain rfl : db₃ = db₂ := hplace
        refine h.takeBack_acted href hx hwrite hq (fun frame' hframe' => ?_) e
        obtain rfl : frame = frame' := Option.some.inj (hframe.symm.trans hframe')
        exact hfetch.fresh habsent

/-- **A row is inserted** into a table file. -/
theorem insertInFile_acted (h : Sound db) (href : db.ref? table = some ref) (row : Row) :
    Acted db ((Database.insertInFile ref row).run db) := by
  obtain ⟨x, hx⟩ := h.registered.exists_extent href
  obtain ⟨f, hfile, hd⟩ := h.registered.file_run href hx
  by_cases hschema : row.schema ≠ f.layout.schema
  · simp only [Database.insertInFile, EStateM.run_bind, hfile, if_pos hschema]
    exact Failing.refl
  · have hwalk := h.placeOnFirst_walked f.id row (List.range f.pageCount)
    simp only [Database.insertInFile, EStateM.run_bind, hfile, if_neg hschema]
    generalize (Database.placeOnFirst f.id row (List.range f.pageCount)).run db = r at hwalk ⊢
    cases hwalk with
    | failed hq => exact .quiet hq
    | placed hs => exact hs
    | @full db₁ hq =>
      have href₁ := (hq.steps.ref? table).trans href
      have hx₁ := (congrFun (h.extent?_quiets hq) table).trans hx
      exact ((h.quiets hq).placeOnNew_acted href₁ hx₁ row).after hq

theorem insert_acted (h : Sound db) (table : TableId) (row : Row) :
    Acted db ((Database.insert table row).run db) := by
  simp only [Database.insert, EStateM.run_bind, Database.tableOf_run]
  cases href : db.ref? table with
  | none => exact Failing.refl
  | some ref => exact h.insertInFile_acted href row

/-! ## 5. Deleting -/

/-- **A row is deleted** from a table file. -/
theorem deleteInFile_acted (h : Sound db) (href : db.ref? table = some ref) (row : Row) :
    Acted db ((Database.deleteInFile ref row).run db) := by
  obtain ⟨x, hx⟩ := h.registered.exists_extent href
  obtain ⟨f, hfile, hd⟩ := h.registered.file_run href hx
  cases hplace : row.place with
  | none =>
    simp only [Database.deleteInFile, hplace]
    exact Failing.refl
  | some place =>
    by_cases htable : place.page.table ≠ f.id
    · simp only [Database.deleteInFile, hplace, EStateM.run_bind, hfile, if_pos htable]
      exact Failing.refl
    by_cases hbehind : f.pageCount ≤ place.page.number
    · simp only [Database.deleteInFile, hplace, EStateM.run_bind, hfile, if_neg htable,
        if_pos hbehind]
      exact Failing.refl
    have hfetch := h.fetch_run place.page
    simp only [Database.deleteInFile, hplace, EStateM.run_bind, hfile, if_neg htable,
      if_neg hbehind]
    generalize (Database.fetch place.page).run db = r at hfetch ⊢
    cases r with
    | error e db₁ => exact .quiet (hfetch.quiets_of_error h)
    | ok frame db₁ =>
      have hq := hfetch.quiets_of_ok h
      have h₁ := h.quiets hq
      have hframe := hfetch.cached h
      cases hdelete : frame.page.delete row with
      | error e =>
        simp only [hdelete]
        exact .quiet hq
      | ok result =>
        obtain ⟨page, freed⟩ := result
        obtain ⟨slot, -, -, hpage, -⟩ := Page.delete_cases hdelete
        simp only [hdelete, Database.attempt, EStateM.run_pure]
        exact hq.steps.tail (Step.of_modifyPage hframe ((h₁.valid_page hframe).delete hdelete)
          (by rw [hpage]; rfl) (by rw [hpage]; rfl) (by rw [hpage]; rfl))

theorem delete_acted (h : Sound db) (row : Row) : Acted db ((Database.delete row).run db) := by
  cases hplace : row.place with
  | none =>
    simp only [Database.delete, hplace]
    exact Failing.refl
  | some place =>
    simp only [Database.delete, hplace, EStateM.run_bind, Database.tableOf_run]
    cases href : db.ref? place.page.table with
    | none => exact Failing.refl
    | some ref => exact h.deleteInFile_acted href row

/-! ## 6. Appending -/

theorem appendPage_acted (h : Sound db) (href : db.ref? table = some ref) :
    Acted db ((Database.appendPage ref).run db) := by
  obtain ⟨x, hx⟩ := h.registered.exists_extent href
  rw [h.registered.appendPage_run href hx]
  cases hwrite : x.write db.disk x.count (Page.zeroImage x.layout.pageSize) with
  | error fault => exact Failing.refl
  | ok disk => exact Relation.ReflTransGen.single (.append hx hwrite)

end Sound
end RowStore
