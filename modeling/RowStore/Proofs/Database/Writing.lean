/-
# Operations keep what has been written

The parts of operations keep what is known of a table and its file (`Origin.parts`), and so do the
changes to its pages in the cache (`Origin.works`).  A new page makes the file longer for a while:
it is there afterwards if the row could be put on it, and it is cut off otherwise
(`Origin.placeOnNew_leads`).
-/
import RowStore.Proofs.Database.Written

namespace RowStore
namespace Origin

variable {o : Origin} {db : Database} {limit count : Nat} {journal : Journal}

/-! ## 1. The parts of operations -/

/-- What is known of a page of a table that has been read. -/
structure Found (o : Origin) (count : Nat) (id : PageId) (page : Page) : Prop where
  suits : page.Suits o.db id
  clean : page.dirty = false
  within : id.table = o.table → id.number < count

namespace CachedWithin

variable {pool pool' : Pool}

/-- Pages that were cached already, and are as clean as they were, are within the bounds. -/
theorem of_old (h : o.CachedWithin limit count pool)
    (hold : ∀ id frame, pool'.cache.peek? id = some frame → ∃ old,
      pool.cache.peek? id = some old ∧ (frame.page.dirty = true → old.page.dirty = true)) :
    o.CachedWithin limit count pool' := by
  intro id frame hframe hid
  obtain ⟨old, hpeek, hdirty⟩ := hold id frame hframe
  obtain ⟨hcount, hlimit⟩ := h id old hpeek hid
  exact ⟨hcount, fun hd => hlimit (hdirty hd)⟩

/-- Where all pages may be written, it does not matter which of them have changed. -/
theorem of_cached (h : o.CachedWithin count count pool)
    (hold : ∀ id frame, pool'.cache.peek? id = some frame →
      ∃ old, pool.cache.peek? id = some old) : o.CachedWithin count count pool' := by
  intro id frame hframe hid
  obtain ⟨old, hpeek⟩ := hold id frame hframe
  have hlt := (h id old hpeek hid).1
  exact ⟨hlt, fun _ => hlt⟩

end CachedWithin

section Parts

theorem modifyPool_upholds {change : Pool → Pool}
    (hstays : Upholds o.db.Stays Any (Database.modifyPool change))
    (hcached : ∀ pool : Pool, pool.cache.InOrder → o.CachedWithin limit count pool →
      o.CachedWithin limit count (change pool)) :
    Upholds (o.Holds limit count journal) Any (Database.modifyPool change) := by
  intro db h
  have hpool := (hstays db h.stays).1
  exact ⟨h.withPool hpool (hcached db.pool h.stays.typed.inOrder h.cached), trivial⟩

theorem readPage_upholds {id : TableId} {ref : TableRef} (href : o.db.ref? id = some ref)
    (number : Nat) : Upholds (o.Holds limit count journal) (o.Found count ⟨id, number⟩)
      (Database.readPage ref number) := by
  refine Database.readPage_keeps (fun _ h => h.stays) href number (fun _ h => h.counted id) ?_
  intro db x image page h hx hread hdecode hsuits
  refine ⟨hsuits, ?_, ?_⟩
  · obtain ⟨-, slots, -, rfl⟩ := Page.decode_cases hdecode
    rfl
  · -- behind the last page nothing can be read
    rintro rfl
    obtain rfl := Option.some.inj (hx.symm.trans h.extent)
    by_contra hnumber
    have hbehind := h.whole.read_behind o.pageSize_pos (Nat.le_of_not_lt hnumber)
    exact absurd (hread.symm.trans hbehind) (by simp)

/-- **A page that is written back** is the one in the journal. -/
theorem writeBack_upholds (id : PageId) :
    Journaled.Upholds (o.Holds limit count) Any (Journaled.writeBack id) := by
  refine Database.writeBack_leads (fun _ _ h => h.stays) (fun _ _ h => h) id ?_
  intro journal db frame x disk h hframe hdirty hx hwrite hstays
  have hwritten : o.Holds limit count (journal ++ [⟨id.table, .write frame.page⟩])
      (db.written id.table id.number disk) := by
    by_cases hid : id.table = o.table
    · exact h.writtenBack hid hframe hdirty hx hwrite
    · exact (h.writtenOther hid hx hwrite).entered fun htable => absurd htable hid
  refine hwritten.withPool hstays (h.cached.of_old fun id' frame' hframe' => ?_)
  rcases h.stays.typed.inOrder.modify_cases hframe' with ⟨rfl, old, hold, rfl⟩ | ⟨-, hold⟩
  · exact ⟨old, hold, fun hd => absurd hd Bool.false_ne_true⟩
  · exact ⟨frame', hold, fun hd => hd⟩

theorem parts : o.db.Parts (o.Holds limit count) (o.Found count) where
  stays _ _ h := h.stays
  readPage href number _ := readPage_upholds href number
  writeBack := writeBack_upholds
  touch id _ := by
    refine modifyPool_upholds (Database.touch_upholds id) fun pool hord h => ?_
    refine h.of_old fun id' frame hframe => ⟨frame, ?_, fun hd => hd⟩
    exact (hord.peek?_touch id id').symm.trans hframe
  drop id _ := by
    refine modifyPool_upholds (Database.drop_upholds id) fun pool hord h => ?_
    exact h.of_old fun id' frame hframe => ⟨frame, (hord.erase_cases hframe).2, fun hd => hd⟩
  load := by
    intro id page hfound journal db h
    have hstays := Database.load_upholds hfound.suits db h.stays
    refine ⟨h.withPool hstays.1 ?_, hfound.suits⟩
    intro id' frame hframe hid
    rcases h.stays.typed.inOrder.of_peek?_insert hframe with ⟨rfl, rfl⟩ | hold
    · exact ⟨hfound.within hid, fun hd => absurd (hfound.clean.symm.trans hd) (by simp)⟩
    · exact h.cached id' frame hold hid

/-- A page is changed through a handle, or the holds on it are. -/
theorem modifyPinned_upholds {p : Database.Pin} {change : Frame → Frame}
    (hstays : Upholds o.db.Stays Any (Database.modifyPinned p change)) :
    Upholds (o.Holds count count journal) Any (Database.modifyPinned p change) := by
  refine modifyPool_upholds hstays fun pool hord h => ?_
  split
  · exact h.of_cached fun id frame hframe => hord.exists_of_modify hframe
  · exact h

/-- **Operations that leave the length of the file alone** keep what is known of the table. -/
theorem works : o.db.Works (o.Holds count count) (o.Found count) where
  toParts := parts
  change := by
    intro id page hsuits journal
    refine modifyPool_upholds (Database.modifyPage_upholds id fun _ _ => hsuits)
      fun pool hord h => ?_
    exact h.of_cached fun id' frame hframe => hord.exists_of_modify hframe
  hold id _ := by
    refine modifyPool_upholds (Database.modifyCache_upholds id fun _ h => h) fun pool hord h => ?_
    exact h.of_cached fun id' frame hframe => hord.exists_of_modify hframe
  unpin p _ := by
    refine .bind (modifyPinned_upholds (Database.modifyPinned_upholds p fun _ _ h => h))
      fun _ _ => ?_
    exact modifyPool_upholds Database.clearDetached_upholds fun pool hord h => h
  edit p ops _ :=
    modifyPinned_upholds (Database.modifyPinned_upholds p fun _ _ h => h.performAll ops)

/-! ## 2. New pages -/

/-- The table holds what the journal says, and all of its pages may be written. -/
def HoldsOn (o : Origin) (journal : Journal) (db : Database) : Prop :=
  ∃ count, o.Holds count count journal db

theorem Holds.on (h : o.Holds count count journal db) : o.HoldsOn journal db := ⟨count, h⟩

section OtherTable

variable {id : TableId} {ref : TableRef}

theorem appendOther_upholds (hne : id ≠ o.table) (href : o.db.ref? id = some ref) :
    Journaled.Upholds (o.Holds limit count) Any (Journaled.appendPage ref) :=
  Database.appendPage_leads (fun _ _ h => h.stays) (fun _ _ h => h) href
    fun _ _ _ _ h hx hwrite => (h.writtenOther hne hx hwrite).entered fun _ => rfl

theorem removeOther_upholds (hne : id ≠ o.table) (href : o.db.ref? id = some ref) (page : PageId) :
    Journaled.Upholds (o.Holds limit count) Any (Journaled.removeLastPage ref page) :=
  Database.removeLastPage_leads (fun _ _ h => h.stays) (fun _ _ h => h) href page
    fun _ _ _ _ h hx _ hcut => (h.shrunkOther hne hx hcut).entered fun _ => rfl

end OtherTable

theorem eq_ref (o : Origin) {id : TableId} {ref : TableRef} (hid : id = o.table)
    (href : o.db.ref? id = some ref) : ref = o.ref := by
  rw [hid] at href
  exact Option.some.inj (href.symm.trans o.ref_eq)

/-- A page that is appended may not be written until it is known to stay. -/
theorem appendPage_run (h : o.Holds count count journal db) :
    (∃ fault, (Journaled.appendPage o.ref).run.run db = .error (.io fault) db ∧
        (Journaled.appendPage o.ref).journal db = []) ∨
      ∃ db', (Journaled.appendPage o.ref).run.run db = .ok ⟨o.table, count⟩ db' ∧
        o.Holds count (count + 1) (journal ++ (Journaled.appendPage o.ref).journal db) db' := by
  have hrun := h.registered.appendPage_run h.ref_eq h.extent
  cases hwrite : o.extent.write db.disk count (Page.zeroImage o.extent.layout.pageSize) with
  | error fault =>
    have hwrite' : Extent.write { o.extent with count } db.disk count
      (Page.zeroImage o.extent.layout.pageSize) = .error fault := hwrite
    rw [hwrite'] at hrun
    exact Or.inl ⟨fault, hrun, Journaled.journal_entering_error hrun⟩
  | ok disk =>
    have hwrite' : Extent.write { o.extent with count } db.disk count
      (Page.zeroImage o.extent.layout.pageSize) = .ok disk := hwrite
    rw [hwrite'] at hrun
    refine Or.inr ⟨_, hrun, ?_⟩
    rw [Journaled.appendPage, Journaled.journal_entering_ok hrun]
    exact (h.appended hwrite).entered fun _ => rfl

/-- The row is put on the new page, or the page is as it was appended. -/
theorem fetchAndPlace_ends (h : o.Holds count (count + 1) journal db) (row : Row) :
    match (Journaled.fetchAndPlace ⟨o.table, count⟩ row).run.run db with
    | .ok _ db' => o.Holds (count + 1) (count + 1)
        (journal ++ (Journaled.fetchAndPlace ⟨o.table, count⟩ row).journal db) db'
    | .error _ db' => o.Holds count (count + 1)
        (journal ++ (Journaled.fetchAndPlace ⟨o.table, count⟩ row).journal db) db' := by
  have hfetch := parts.fetch ⟨o.table, count⟩ journal db h
  rw [Journaled.fetchAndPlace, Journaled.run_bind, EStateM.run_bind]
  cases hr : (Journaled.fetch ⟨o.table, count⟩).run.run db with
  | error e db₂ =>
    rw [hr] at hfetch
    rw [Journaled.journal_bind_error hr]
    exact hfetch
  | ok frame db₂ =>
    rw [hr] at hfetch
    rw [Journaled.journal_bind_ok hr, Journaled.journal_quietly, List.append_nil]
    obtain ⟨h₂, hsuits⟩ := hfetch
    -- only a page with a row on it may be written, so the limit moves in that case alone
    cases hinsert : frame.page.insert row with
    | error e =>
      simp only [Journaled.run_quietly, Database.placeOn, EStateM.run_bind, hinsert]
      exact h₂
    | ok placed =>
      have hchange := works.change ((hsuits.insert hinsert).mark true) _ db₂ h₂.relax
      simp only [Journaled.run_quietly, Database.placeOn, EStateM.run_bind, hinsert,
        Database.attempt, EStateM.run_pure]
      exact hchange.1

/-- A page that has not been written, and is not cached, can be cut off again. -/
theorem removeLastPage_run (h : o.Holds count (count + 1) journal db)
    (habsent : db.pool.cache.peek? ⟨o.table, count⟩ = none) :
    ∃ db', (Journaled.removeLastPage o.ref ⟨o.table, count⟩).run.run db = .ok () db' ∧
      o.Holds count count
        (journal ++ (Journaled.removeLastPage o.ref ⟨o.table, count⟩).journal db) db' := by
  obtain ⟨disk, hcut, hshrunk⟩ := h.shrunk habsent
  obtain ⟨f, hfile, hd⟩ := h.registered.file_run h.ref_eq h.extent
  have hrun := h.registered.removeLastPage_run h.ref_eq h.extent rfl
  have hcut' : Extent.cut { o.extent with count := count + 1 } db.disk count = .ok disk := hcut
  rw [hcut'] at hrun
  refine ⟨_, (congrArg (EStateM.run · db) (Journaled.run_removeLastPage _ _)).trans hrun, ?_⟩
  rw [Journaled.removeLastPage, Journaled.journal_bind_ok hfile, Journaled.journal_quietly,
    List.nil_append, if_pos hd.count, Journaled.journal_entering_ok hrun]
  exact hshrunk.entered fun _ => rfl

/-- **A page is taken back**: the file ends where it ended before. -/
theorem takeBack_leads (e : Error) : Journaled.Leads (o.Holds count (count + 1)) o.HoldsOn Any
    (Journaled.takeBack o.ref ⟨o.table, count⟩ e) := by
  intro journal db h
  obtain ⟨db₂, hdrop, h₂, habsent⟩ : ∃ db₂,
      (Database.drop ⟨o.table, count⟩).run db = .ok () db₂ ∧ o.Holds count (count + 1) journal db₂ ∧
        db₂.pool.cache.peek? ⟨o.table, count⟩ = none := by
    have herase := h.stays.typed.inOrder.peek?_erase ⟨o.table, count⟩ ⟨o.table, count⟩
    exact ⟨_, rfl, (parts.drop ⟨o.table, count⟩ journal db h).1, herase.trans (if_pos rfl)⟩
  obtain ⟨db₃, hcut, h₃⟩ := removeLastPage_run h₂ habsent
  have hdone : (tryCatch (Journaled.removeLastPage o.ref ⟨o.table, count⟩).run fun _ => pure ()).run
      db₂ = .ok () db₃ := run_tryCatch_ok hcut
  rw [Journaled.takeBack, Journaled.run_bind, EStateM.run_bind, Journaled.run_quietly, hdrop,
    Journaled.journal_bind_ok hdrop, Journaled.journal_quietly, List.nil_append,
    Journaled.journal_bind_ok hdone, Journaled.journal_orElse_ok hcut, Journaled.journal_quietly,
    List.append_nil]
  simp only [Journaled.run_bind, EStateM.run_bind, Journaled.run_orElse, Journaled.run_pure, hdone]
  exact h₃.on

/-- **A new page** is there afterwards if the row could be put on it, and otherwise it is not. -/
theorem placeOnNew_leads {id : TableId} {ref : TableRef} (href : o.db.ref? id = some ref)
    (row : Row) :
    Journaled.Leads (o.Holds count count) o.HoldsOn Any (Journaled.placeOnNew ref row) := by
  by_cases hid : id = o.table
  · obtain rfl := o.eq_ref hid href
    intro journal db h
    rw [Journaled.placeOnNew, Journaled.run_bind, EStateM.run_bind]
    rcases appendPage_run h with ⟨fault, hrun, hjournal⟩ | ⟨db₂, hrun, h₂⟩
    · rw [hrun, Journaled.journal_bind_error hrun, hjournal, List.append_nil]
      exact h.on
    · rw [hrun, Journaled.journal_bind_ok hrun, ← List.append_assoc]
      have hplace := fetchAndPlace_ends h₂ row
      dsimp only
      rw [Journaled.run_orElse]
      cases hr : (Journaled.fetchAndPlace ⟨o.table, count⟩ row).run.run db₂ with
      | ok placed db₃ =>
        rw [hr] at hplace
        rw [run_tryCatch_ok hr, Journaled.journal_orElse_ok hr]
        exact ⟨hplace.on, trivial⟩
      | error e db₃ =>
        rw [hr] at hplace
        rw [run_tryCatch_error hr, Journaled.journal_orElse_error hr, ← List.append_assoc]
        exact takeBack_leads e _ db₃ hplace
  · have hother : Journaled.Upholds (o.Holds count count) Any (Journaled.placeOnNew ref row) :=
      works.placeOnNew (appendOther_upholds hid href) (removeOther_upholds hid href) row
    exact hother.leads fun _ _ h => h.on

theorem appendPage_leads {id : TableId} {ref : TableRef} (href : o.db.ref? id = some ref) :
    Journaled.Leads (o.Holds count count) o.HoldsOn Any (Journaled.appendPage ref) := by
  refine Database.appendPage_leads (fun _ _ h => h.stays) (fun _ _ h => h.on) href ?_
  intro journal db x disk h hx hwrite
  by_cases hid : id = o.table
  · subst hid
    obtain rfl := Option.some.inj (hx.symm.trans h.extent)
    exact ((h.appended hwrite).entered fun _ => rfl).relax.on
  · exact ((h.writtenOther hid hx hwrite).entered fun _ => rfl).on

/-- **A page is written past the cache**, to any place of the table or of another one. -/
theorem writePage_leads {id : TableId} {ref : TableRef} {page : Page}
    (href : o.db.ref? id = some ref)
    (hpage : id = o.table → page.Valid ∧ page.layout = o.extent.layout) :
    Journaled.Leads (o.Holds count count) o.HoldsOn Any (Journaled.writePage id ref page) := by
  refine Database.writePage_leads (fun _ _ h => h.stays) (fun _ _ h => h.on) href page ?_
  intro journal db x disk h hx hwrite
  by_cases hid : id = o.table
  · obtain ⟨hvalid, hlayout⟩ := hpage hid
    subst hid
    obtain rfl := Option.some.inj (hx.symm.trans h.extent)
    exact (h.written hvalid hlayout (Or.inr rfl) hwrite).on
  · exact ((h.writtenOther hid hx hwrite).entered fun htable => absurd htable hid).on

end Parts

end Origin
end RowStore
