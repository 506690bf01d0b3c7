/-
# The cache agrees with the disk

Take any session in which changes through handles are marked as changes.  Whatever has succeeded or
failed in it, every cached page has as its image from before the changes the bytes that now stand
in its place on the disk, and if the page is clean then it says what those bytes say
(`Session.coherent_after`).

These are the two ties between the copies of a page, and every step keeps them; what is left
to look at are the acts that are no steps.  Pages that come and go leave the ties of the others, and
a device that fills up changes nothing of what is on it.
-/
import RowStore.Proofs.Database.Sessions

namespace RowStore

/-! ## 1. The two ties -/

namespace Settled

variable {db db' : Database}

theorem repooled (hs : Settled db) (hr : db.Repooled db') : Settled db' := by
  obtain ⟨pool, rfl, -, hdraws⟩ := hr
  exact hs.withPool hdraws

theorem withRoom (hs : Settled db) (path : String) (full : Bool) :
    Settled { db with disk := db.disk.withRoom path full } := by
  intro id frame hframe hclean
  rw [Database.stored?_withRoom]
  exact hs id frame hframe hclean

end Settled

namespace Captured

variable {db db' : Database}

theorem repooled (hc : Captured db) (hr : db.Repooled db') : Captured db' := by
  obtain ⟨pool, rfl, -, hdraws⟩ := hr
  exact hc.withPool hdraws

theorem withRoom (hc : Captured db) (path : String) (full : Bool) :
    Captured { db with disk := db.disk.withRoom path full } := by
  intro id frame hframe
  rw [Database.image?_withRoom]
  exact hc id frame hframe

end Captured

namespace Moved

variable {s s' : Session} {act : Act}

/-- **An act** keeps a session settled if it marks what it changes. -/
theorem settled (hm : Moved s act s') (h : Sound s.db) (hmarked : act.Marked)
    (hs : Settled s.db) : Settled s'.db := by
  cases hm with
  | worked rows hsteps => exact hs.steps h hsteps
  | @pinned id db frame hq hframe =>
    exact (hs.quiets h hq).1.repooled (.modify (h.quiets hq).inOrder id fun _ => rfl)
  | @released handle p hp => exact hs.repooled (.unpin h.inOrder p)
  | @discarded id => exact hs.repooled (.drop h.inOrder id)
  | @edited handle ops p hp =>
    rcases h.edited_cases p hmarked with hstep | hr
    · exact hs.step h hstep
    · exact hs.repooled hr
  | @room path full => exact hs.withRoom path full

/-- **An act** keeps the images from before the changes. -/
theorem captured (hm : Moved s act s') (h : Sound s.db) (hmarked : act.Marked)
    (hc : Captured s.db) : Captured s'.db := by
  cases hm with
  | worked rows hsteps => exact hc.steps h hsteps
  | @pinned id db frame hq hframe =>
    exact (hc.steps h hq.steps).repooled (.modify (h.quiets hq).inOrder id fun _ => rfl)
  | @released handle p hp => exact hc.repooled (.unpin h.inOrder p)
  | @discarded id => exact hc.repooled (.drop h.inOrder id)
  | @edited handle ops p hp =>
    rcases h.edited_cases p hmarked with hstep | hr
    · exact hc.step h hstep
    · exact hc.repooled hr
  | @room path full => exact hc.withRoom path full

end Moved

namespace Session

variable {s : Session}

theorem settled_after (h : Sound s.db) (hs : Settled s.db) {acts : List Act}
    (hacts : ∀ act ∈ acts, act.Marked) : Settled (s.after acts).db :=
  after_induction (fun s => Settled s.db) Act.Marked
    (fun _ _ _ h hmarked hm hs => hm.settled h hmarked hs) h hs hacts

theorem captured_after (h : Sound s.db) (hc : Captured s.db) {acts : List Act}
    (hacts : ∀ act ∈ acts, act.Marked) : Captured (s.after acts).db :=
  after_induction (fun s => Captured s.db) Act.Marked
    (fun _ _ _ h hmarked hm hc => hm.captured h hmarked hc) h hc hacts

end Session

/-! ## 2. The result -/

/-- The image of every cached page from before its changes is what stands in its place on the disk,
and a clean page says what this decodes to. -/
def Database.Coherent (db : Database) : Prop :=
  ∀ id frame, db.pool.cache.peek? id = some frame →
    ∃ f, db.table? id.table = some f ∧
      db.disk.read f.path (id.offset f.layout.pageSize) f.layout.pageSize =
        .ok frame.page.before ∧
      (frame.page.dirty = false → ∃ page, Page.decode id f.layout frame.page.before = .ok page ∧
        page.bitmap = frame.page.bitmap ∧ page.slots = frame.page.slots)

theorem Database.Coherent.of_ties {db : Database} (h : Sound db) (hs : Settled db)
    (hc : Captured db) : db.Coherent := by
  intro id frame hframe
  obtain ⟨x, hx, -⟩ := h.cached hframe
  have himage := hc id frame hframe
  have hread := eq_ok_of_toOption ((image?_eq hx).symm.trans himage)
  have hstored := hs id frame hframe
  obtain ⟨f, hf, rfl⟩ := exists_table hx
  refine ⟨f, hf, hread, fun hclean => ?_⟩
  obtain ⟨page, hpage, hcontent⟩ := Option.map_eq_some_iff.mp (hstored hclean)
  obtain ⟨y, image, hy, hread', hdecode⟩ := exists_of_stored? hpage
  obtain rfl := Option.some.inj (hx.symm.trans hy)
  obtain rfl : frame.page.before = image := Except.ok.inj (hread.symm.trans hread')
  exact ⟨page, hdecode, congrArg Content.bitmap hcontent, congrArg Content.slots hcontent⟩

namespace Session

open Database

/-- **The cache agrees with the disk.**  Take tables that any openings have led to, each with a file
of its own, and any session on them in which changes through handles are marked.  Acts may succeed
or fail, and devices may fill up: afterwards every cached page has the bytes in its place on the
disk as its image from before the changes, and every clean one has their bitmap and their rows. -/
theorem coherent_after {disk : Disk} {pageSize capacity : Nat} {db₀ : Database}
    (h₀ : onDisk disk pageSize capacity = .ok db₀) (openings : List Opening)
    (hseparate : (db₀.openAll openings).Separate) (acts : List Act)
    (hmarked : ∀ act ∈ acts, act.Marked) :
    ((start (db₀.openAll openings)).after acts).db.Coherent := by
  obtain ⟨h, hempty⟩ := sound_openAll h₀ hseparate
  exact .of_ties (sound_after h acts) (settled_after h (.of_empty hempty) hmarked)
    (captured_after h (.of_empty hempty) hmarked)

/-- A page is emptied and flushed, and gets another row: the image from before is that of the empty
page, which is on the disk. -/
theorem coherent_after_flush :
    ∃ acts : List Act, onDisk Sample.disk 8 1 = .ok (Sample.database 1) ∧
      ((Sample.database 1).openAll [Sample.opening]).Separate ∧ (∀ act ∈ acts, act.Marked) ∧
      ((start ((Sample.database 1).openAll [Sample.opening])).after acts).db.Coherent ∧
      (((start ((Sample.database 1).openAll [Sample.opening])).after acts).db.pool.cache.peek?
        ⟨0, 0⟩).map (fun frame => (frame.page.dirty, frame.page.before)) =
          some (true, Page.zeroImage 8) := by
  let acts : List Act :=
    [.get ⟨0, 0⟩, .edit 0 [.delete (Sample.row.movedTo (some ⟨⟨0, 0⟩, 0⟩)), .mark true],
      .flush ⟨0, 0⟩, .edit 0 [.insert Sample.row, .mark true]]
  have h₀ : onDisk Sample.disk 8 1 = .ok (Sample.database 1) := rfl
  have hmarked : ∀ act ∈ acts, act.Marked := by
    simp [acts, Act.Marked]
  refine ⟨acts, h₀, (Sample.ordinary 1).separate, hmarked,
    coherent_after h₀ _ (Sample.ordinary 1).separate acts hmarked, ?_⟩
  rw [Sample.openAll_eq]
  cbv

end Session
end RowStore
