/-
# The page before its changes

A page carries an image besides its rows, and `Page.beforeImage` reads it back.  The image may be
one of zeros, one that came from a disk with junk in it, or the page's own from when it was
captured; what is read is the page as it was then (`lastCaptured`), whatever was done with the
rows since.

* `Remembers` is the invariant: the image reads back as the page of that time;
* making and reading a page and capturing it bring it about, and no other operation touches the
  image (`Remembers.perform`);
* `beforeImage_eq_lastCaptured` is the result for every history of a page.
-/
import RowStore.Proofs.Page.NormalForm

namespace RowStore
namespace Page

/-! ## 1. The page of that time -/

/-- The page as it was at the last capture among the operations, or `old` if there is none. -/
def capturedIn (old page : Page) : List Op → Page
  | [] => old
  | .capture :: ops => capturedIn page (page.perform .capture) ops
  | op :: ops => capturedIn old (page.perform op) ops

/-- The page as it was when it was last captured, or else to begin with. -/
def lastCaptured (start : Page) (ops : List Op) : Page := capturedIn start start ops

/-! ## 2. What the image remembers -/

/-- The image that the page carries reads back as the old page.  What is read is clean, and carries
the same image. -/
structure Remembers (page old : Page) : Prop where
  valid : page.Valid
  reads : page.beforeImage = .ok { old with dirty := false, before := page.before }

/-- A new page carries zeros, which are the image of the page without rows. -/
theorem remembers_empty (id : PageId) (layout : Layout) :
    (empty id layout).Remembers (empty id layout) := by
  constructor
  · exact valid_empty id layout
  · exact decode_zeroImage id layout

/-- A page that was read carries the image that it was read from. -/
theorem remembers_decoded {id : PageId} {layout : Layout} {image : Bytes} {page : Page}
    (h : decode id layout image = .ok page) : page.Remembers page := by
  obtain ⟨-, slots, -, rfl⟩ := decode_cases h
  constructor
  · exact Valid.of_decode h
  · exact h

namespace Remembers

variable {page old : Page}

/-- A page that is captured carries its own image, and pages survive being written and read. -/
theorem capture (h : page.Remembers old) : (page.perform .capture).Remembers page := by
  constructor
  · exact (h.valid.perform .capture).1
  · exact h.valid.decode_encode

/-- **Any other operation**, whether it succeeds or fails, leaves the image and what it is the image
of. -/
theorem perform (h : page.Remembers old) {op : Op} (hop : op ≠ .capture) :
    (page.perform op).Remembers old := by
  obtain ⟨hv, hid, hlayout⟩ := h.valid.perform op
  constructor
  · exact hv
  · rw [beforeImage, before_perform hop, hid, hlayout]
    exact h.reads

/-- **The image remembers the last capture.**  By induction on the operations; a capture puts the
page of its time in place of the old one. -/
theorem after (h : page.Remembers old) (ops : List Op) :
    (ops.foldl Page.perform page).Remembers (capturedIn old page ops) := by
  induction ops generalizing page old with
  | nil => exact h
  | cons op ops ih =>
    cases op with
    | capture => exact ih h.capture
    | insert row => exact ih (h.perform Op.noConfusion)
    | delete row => exact ih (h.perform Op.noConfusion)
    | mark dirty => exact ih (h.perform Op.noConfusion)

end Remembers

/-! ## 3. Every history -/

/-- **The image before the changes reads back**, on every page that there can be: a new one or one
that was read from any image, and then stored to, removed from, marked and captured in any order.
It reads as a page equal to the one of the last capture, or to the page that there was to begin
with; even its rows know their places. -/
theorem beforeImage_eq_lastCaptured {id : PageId} {layout : Layout} {start : Page}
    (hstart : start = empty id layout ∨ ∃ image, decode id layout image = .ok start)
    (ops : List Op) :
    ∃ before, (ops.foldl perform start).beforeImage = .ok before ∧
      before.sameContent (lastCaptured start ops) ∧
      before = { lastCaptured start ops with
        dirty := false, before := (ops.foldl perform start).before } := by
  have h : start.Remembers start := by
    rcases hstart with rfl | ⟨image, hread⟩
    · exact remembers_empty id layout
    · exact remembers_decoded hread
  exact ⟨_, (h.after ops).reads, sameContent_withMarks _ _ _, rfl⟩

/-- A page whose image has junk behind its only row and a stray bit set.  The row is removed before
the capture and another one is stored behind it; the page that is remembered has neither. -/
theorem beforeImage_eq_lastCaptured_junk :
    ∃ (layout : Layout) (start : Page) (old new : Row) (ops : List Op),
      (start = empty ⟨0, 3⟩ layout ∨ ∃ image, decode ⟨0, 3⟩ layout image = .ok start) ∧
      start.row? 0 = some old ∧ ops = [.delete old, .mark true, .capture, .insert new] ∧
      (ops.foldl perform start).row? 0 = some (new.movedTo (some ⟨⟨0, 3⟩, 0⟩)) ∧
      (lastCaptured start ops).bitmap = ⟨#[128]⟩ ∧ (lastCaptured start ops).rows = [] ∧
      ∃ before, (ops.foldl perform start).beforeImage = .ok before ∧
        before.sameContent (lastCaptured start ops) ∧
        before = { lastCaptured start ops with
          dirty := false, before := (ops.foldl perform start).before } := by
  let schema : Schema := ⟨[⟨"n", .int⟩]⟩
  let layout : Layout := ⟨schema, 8, 1, by decide, by decide, by decide, by decide⟩
  let image : Bytes := [129, 7, 0, 0, 0, 9, 9, 9]
  let old : Row := ⟨schema, [.int 7], some ⟨⟨0, 3⟩, 0⟩, rfl⟩
  let new : Row := ⟨schema, [.int 8], none, rfl⟩
  let start : Page := ⟨⟨0, 3⟩, layout, ⟨#[129]⟩, #[some old], false, image⟩
  let ops : List Op := [.delete old, .mark true, .capture, .insert new]
  have hread : decode ⟨0, 3⟩ layout image = .ok start := by cbv
  have hstart : start = empty ⟨0, 3⟩ layout ∨ ∃ image, decode ⟨0, 3⟩ layout image = .ok start :=
    .inr ⟨image, hread⟩
  refine ⟨layout, start, old, new, ops, hstart, rfl, rfl, ?_, ?_, ?_, ?_⟩
  · decide +kernel
  · decide +kernel
  · decide +kernel
  · exact beforeImage_eq_lastCaptured hstart ops

end Page
end RowStore
