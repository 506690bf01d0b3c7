/-
# A failure leaves everything as it was

An operation can fail at many points: there is no victim, the page cannot be read or does not decode,
the victim cannot be written back, and all that during the walk of an insertion, when other pages have
left the cache already, or behind it, when the table has a new page.  Two things are left to see here.
What a failing operation has done is quiet, but for a page that it has appended and cut off again
(`Failing`), and neither shows in the pages that were there (`Failing.content?_eq`).

The result is `Session.failure_atomic`.  Of the session it asks one thing, that clean pages say what
is on the disk; changes through handles that are not marked can break that, and then a page may
well leave the cache and come back as another.
-/
import RowStore.Proofs.Database.Coherence

namespace RowStore

/-! ## 1. What stays -/

namespace Failing

variable {db db' : Database}

/-- **The tables** have the pages that they had. -/
theorem extent?_eq (hf : Failing db db') (h : Sound db) : db'.extent? = db.extent? := by
  cases hf with
  | quiet hq => exact h.extent?_quiets hq
  | @undone table x db₁ db₂ disk disk' before hx hwrite between hx' habsent hcut hdb' =>
    have h₁ := h.quiets before
    have h₂ := h₁.step (.append hx hwrite)
    have h₃ := h₂.quiets between
    funext id
    rw [hdb', Database.extent?_shrunk h₃.registered, h₂.extent?_quiets between,
      Database.extent?_written h₁.registered, if_pos rfl, ← h.extent?_quiets before]
    by_cases hid : id = table
    · rw [if_pos hid, hid, hx]
      rfl
    · rw [if_neg hid, Database.extent?_written h₁.registered, if_neg hid]

/-- A page that was in its table, or in the cache, says what it said.  One in the cache may lie
behind its table, but then the table can get no page, and so it can lose none. -/
theorem content?_eq (hf : Failing db db') (h : Sound db) (hs : Settled db) {id : PageId}
    (hid : (∃ x, db.extent? id.table = some x ∧ id.number < x.count) ∨
      ∃ frame, db.pool.cache.peek? id = some frame) : db'.content? id = db.content? id := by
  cases hf with
  | quiet hq => exact congrFun (hs.quiets h hq).2 id
  | @undone table x db₁ db₂ disk disk' before hx hwrite between hx' habsent hcut hdb' =>
    have h₁ := h.quiets before
    obtain ⟨hs₁, hcontent₁⟩ := hs.quiets h before
    have h₂ := h₁.step (.append hx hwrite)
    have hs₂ := hs₁.append h₁ hx hwrite
    obtain ⟨-, hcontent₃⟩ := hs₂.quiets h₂ between
    have hx₀ : db.extent? table = some x := (congrFun (h.extent?_quiets before) table).symm.trans hx
    have hend : ¬ db.disk.Endless x.path := fun hyes =>
      (h₁.carried hx).not_endless List.length_replicate hwrite
        ((h.endless_quiets before x.path).mpr hyes)
    -- the appended page is none of those that are asked about
    have hfront : id.table = table → id.number < x.count := by
      rintro rfl
      rcases hid with ⟨y, hy, hlt⟩ | ⟨frame, hframe⟩
      · obtain rfl : x = y := Option.some.inj (hx₀.symm.trans hy)
        exact hlt
      · obtain ⟨y, hy, hadmits⟩ := h.cached hframe
        obtain rfl : x = y := Option.some.inj (hx₀.symm.trans hy)
        exact hadmits.lt_count hend
    have hne : id ≠ ⟨table, x.count⟩ := by
      rintro rfl
      exact Nat.lt_irrefl _ (hfront rfl)
    calc db'.content? id
        = db₂.content? id := by
          rw [hdb', Database.content?_shrink (h₂.quiets between) hx' rfl hcut hfront]
      _ = (db₁.written table x.count disk).content? id := congrFun hcontent₃ id
      _ = db₁.content? id := Database.content?_append h₁ hx hwrite hne
      _ = db.content? id := congrFun hcontent₁ id

end Failing

/-- The one database says of tables and pages what the other said, and what was not yet on the disk
is there or is still cached and dirty. -/
structure Unharmed (db db' : Database) : Prop where
  pageCount : ∀ id, db'.pageCount? id = db.pageCount? id
  content : ∀ id count, db.pageCount? id.table = some count → id.number < count →
    db'.content? id = db.content? id
  unwritten : ∀ id frame, db.pool.cache.peek? id = some frame → frame.page.dirty = true →
    (∃ frame', db'.pool.cache.peek? id = some frame' ∧ frame'.page.dirty = true ∧
      frame'.page.content = frame.page.content) ∨
    (db'.stored? id).map (·.content) = some frame.page.content

theorem Failing.unharmed {db db' : Database} (hf : Failing db db') (h : Sound db)
    (hs : Settled db) : Unharmed db db' where
  pageCount := congrFun (Database.pageCount?_congr (hf.extent?_eq h))
  content := by
    intro id count hcount hlt
    rw [Database.pageCount?_eq, Option.map_eq_some_iff] at hcount
    obtain ⟨x, hx, rfl⟩ := hcount
    exact hf.content?_eq h hs (Or.inl ⟨x, hx, hlt⟩)
  unwritten := by
    intro id frame hframe hdirty
    have hcontent := hf.content?_eq h hs (Or.inr ⟨frame, hframe⟩)
    rw [Database.content?_of_cached hframe] at hcontent
    cases hframe' : db'.pool.cache.peek? id with
    | none =>
      rw [Database.content?_of_absent hframe'] at hcontent
      exact Or.inr hcontent
    | some frame' =>
      rw [Database.content?_of_cached hframe', Option.some.injEq] at hcontent
      cases hclean : frame'.page.dirty with
      | true => exact Or.inl ⟨frame', rfl, hclean, hcontent⟩
      | false =>
        have hstored := hs.steps h hf.steps id frame' hframe' hclean
        rw [hcontent] at hstored
        exact Or.inr hstored

/-! ## 2. The result -/

namespace Session

open Database

/-- **A failure leaves everything as it was.**  Take tables that any openings have led to, each with
a file of its own, and any session on them; files may refuse writes and hold pages that do not
decode, and any pages may be held.  If every clean page says what is on the disk and an act fails
then, the tables have as many pages as before, every page of theirs says what it said, and what
was not on the disk is there now or waits in the cache.  The rows of the users keep their places.
A page that could not be had leaves the cache as it was: the pages, their order and their marks. -/
theorem failure_atomic {disk : Disk} {pageSize capacity : Nat} {db₀ : Database}
    (h₀ : onDisk disk pageSize capacity = .ok db₀) (openings : List Opening)
    (hseparate : (db₀.openAll openings).Separate) (acts : List Act) {s s' : Session}
    (hs : s = (start (db₀.openAll openings)).after acts) (hsettled : Settled s.db) {act : Act}
    {e : Error} (hfail : (perform act).run s = .error e s') :
    Unharmed s.db s'.db ∧ s'.rows = s.rows ∧ s'.held = s.held ∧
      ∀ id, act = .get id → s'.db.pool = s.db.pool := by
  have h : Sound s.db := by
    rw [hs]
    exact sound_after (sound_openAll h₀ hseparate).1 acts
  have hperformed := perform_run h act
  rw [hfail] at hperformed
  cases hperformed with
  | failed hf hget => exact ⟨hf.unharmed h hsettled, rfl, rfl, hget⟩

/-- The only page of a table is full and held, in a pool of one page.  A row needs a new page, which
is written, cannot be had, and is taken back. -/
theorem failure_atomic_undone :
    ∃ (acts : List Act) (s s' : Session), onDisk Sample.disk 8 1 = .ok (Sample.database 1) ∧
      ((Sample.database 1).openAll [Sample.opening]).Separate ∧
      s = (start ((Sample.database 1).openAll [Sample.opening])).after acts ∧ Settled s.db ∧
      (perform (.insert 0 0)).run s = .error .allPinned s' ∧
      (Unharmed s.db s'.db ∧ s'.rows = s.rows ∧ s'.held = s.held ∧
        ∀ id, Act.insert 0 0 = .get id → s'.db.pool = s.db.pool) ∧
      (s'.db.table? 0).map (fun f => (f.pageCount, f.writes)) = some (1, 1) := by
  let acts : List Act := [.get ⟨0, 0⟩, .row Sample.row]
  have h₀ : onDisk Sample.disk 8 1 = .ok (Sample.database 1) := rfl
  have hseparate := (Sample.ordinary 1).separate
  obtain ⟨h, hempty⟩ := sound_openAll h₀ hseparate
  have hsettled : Settled ((start ((Sample.database 1).openAll [Sample.opening])).after acts).db :=
    settled_after h (.of_empty hempty) (by simp [acts, Act.Marked])
  obtain ⟨s', hfail⟩ : ∃ s', (perform (.insert 0 0)).run
      ((start ((Sample.database 1).openAll [Sample.opening])).after acts) =
        .error .allPinned s' := by
    rw [Sample.openAll_eq]
    exact ⟨_, by cbv⟩
  have hs' : s' = endState ((perform (.insert 0 0)).run
      ((start ((Sample.database 1).openAll [Sample.opening])).after acts)) := by
    rw [hfail]
    rfl
  refine ⟨acts, _, s', h₀, hseparate, rfl, hsettled, hfail,
    failure_atomic h₀ [Sample.opening] hseparate acts rfl hsettled hfail, ?_⟩
  rw [hs', Sample.openAll_eq]
  cbv

end Session
end RowStore
