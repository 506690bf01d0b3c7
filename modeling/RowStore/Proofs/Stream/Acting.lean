/-
# Acts keep what their parts keep

What an act does to a database is put together from operations, so a condition that the parts of
these keep is kept by the act (`Session.perform_leads`); it may look at the changes that have been
made to files up to there.  Three kinds of acts are not settled by the parts: an insertion and an
append can make a table longer, and a device can fill up.  Where they lead to is asked for.
-/
import RowStore.Proofs.Stream.Typing

namespace RowStore

namespace Session

open Journaled (quietly onSession onSession_leads)

variable {db₀ : Database} {Inv Inv' : Journal → Database → Prop} {Found : PageId → Page → Prop}

/-! ## 1. Scans -/

theorem take_upholds (h : db₀.Parts Inv Found) {id : TableId} {ref : TableRef} {layout : Layout}
    (href : db₀.ref? id = some ref) (hlayout : db₀.layout? id = some layout) (count : Nat) :
    Journaled.Upholds (fun journal => StreamM.Both (Scan.Fit layout.schema) (Inv journal)) Any
      (Journaled.take ref count) := by
  induction count with
  | zero => exact .pure trivial
  | succ count ih =>
    refine .bind (Scan.next_upholds h href hlayout) fun row? _ => ?_
    cases row? with
    | none => exact .pure trivial
    | some row => exact .bind ih fun _ _ => .pure trivial

/-- Taking all rows keeps what starting the stream keeps, and taking some of them. -/
theorem drain_upholds {σ : Type} {Fit : σ → Prop} {s : RowStream σ}
    {take : Nat → Journaled (σ × Database) (List Row)}
    (hstart : ∀ journal, Upholds (StreamM.Both Fit (Inv journal)) Any s.start)
    (htake : ∀ count, Journaled.Upholds (fun journal => StreamM.Both Fit (Inv journal)) Any
      (take count)) :
    Journaled.Upholds (fun journal => StreamM.Both Fit (Inv journal)) Any
      (Journaled.drain s take) := by
  refine .bind (.quietly hstart) fun _ _ => ?_
  exact .bind (.quietly fun _ => Upholds.get.any) fun (_, _) _ => htake _

/-- Looking at a table from its first page to its last. -/
theorem scanTable_upholds (h : db₀.Parts Inv Found) (table : TableId) :
    Journaled.Upholds Inv Any (Journaled.scanTable table) := by
  refine .bind (.quietly (h.tableOf table)) fun ref href => ?_
  refine .bind (.quietly (h.file href)) fun f ⟨_, hlayout⟩ => ?_
  have hdrain := drain_upholds (fun _ => Scan.start_upholds ref f.layout.schema)
    (take_upholds h href hlayout)
  refine Journaled.runFrom_upholds hdrain ?_
  rintro cursor ⟨⟩

/-! ## 2. Acts -/

/-- **An act** leads to where the new pages of tables lead, whether it succeeds or fails, and keeps
the condition otherwise. -/
theorem perform_leads (h : db₀.Works Inv Found)
    (hinv : ∀ journal db, Inv journal db → Inv' journal db)
    (hnew : ∀ table ref row, db₀.ref? table = some ref →
      Journaled.Leads Inv Inv' Any (Journaled.placeOnNew ref row))
    (happend : ∀ table ref, db₀.ref? table = some ref →
      Journaled.Leads Inv Inv' Any (Journaled.appendPage ref))
    (hroom : ∀ journal db path full, Inv journal db →
      Inv' journal { db with disk := db.disk.withRoom path full }) (act : Act) :
    Journaled.Leads (fun journal s => Inv journal s.db) (fun journal s => Inv' journal s.db) Any
      (Journaled.perform act) := by
  have hrest : ∀ change : Session → Session, (∀ s, (change s).db = s.db) →
      Journaled.Leads (fun journal s => Inv' journal s.db) (fun journal s => Inv' journal s.db) Any
        (quietly (modify change)) := by
    refine fun change hchange => .quietly fun journal => Upholds.change fun s hs => ?_
    rwa [hchange]
  have hstart : ∀ journal (s : Session), Inv journal s.db → Inv' journal s.db :=
    fun journal s => hinv journal s.db
  have hsame : ∀ journal (s : Session), Inv' journal s.db → Inv' journal s.db := fun _ _ hs => hs
  have hlook : Journaled.Leads (fun journal (s : Session) => Inv journal s.db)
      (fun journal s => Inv journal s.db) Any (quietly get) :=
    .quietly fun _ => Upholds.get.any
  have hidle : Journaled.Leads (fun journal (s : Session) => Inv journal s.db)
      (fun journal s => Inv' journal s.db) Any (pure ()) :=
    (Journaled.Upholds.pure trivial).leads hstart
  have hdone : Journaled.Leads (fun journal (s : Session) => Inv' journal s.db)
      (fun journal s => Inv' journal s.db) Any (pure ()) :=
    Journaled.Upholds.pure trivial
  have hstep : ∀ {α : Type} {x : Journaled Database α}, Journaled.Upholds Inv Any x →
      Journaled.Leads (fun journal s => Inv journal s.db) (fun journal s => Inv' journal s.db) Any
        (onSession x) :=
    fun hx => onSession_leads (hx.leads hinv)
  cases act with
  | get page => exact (hstep (h.pin page)).bind hsame fun _ _ => hrest _ fun _ => rfl
  | letGo handle =>
    refine hlook.bind hstart fun s _ => ?_
    cases s.held[handle]? with
    | none => exact hidle
    | some p => exact (hstep (.quietly (h.unpin p))).bind hsame fun _ _ => hrest _ fun _ => rfl
  | row row => exact .quietly fun journal s hs => ⟨hinv journal s.db hs, trivial⟩
  | insert table i =>
    refine hlook.bind hstart fun s _ => ?_
    cases s.rows[i]? with
    | none => exact hidle
    | some row =>
      have hinsert := h.insert hinv (hnew table) row
      exact (onSession_leads hinsert).bind hsame fun _ _ => hrest _ fun _ => rfl
  | delete i =>
    refine hlook.bind hstart fun s _ => ?_
    cases s.rows[i]? with
    | none => exact hidle
    | some row => exact (hstep (h.delete row)).bind hsame fun _ _ => hrest _ fun _ => rfl
  | flush page => exact (hstep (h.flushPage page)).bind hsame fun _ _ => hdone
  | flushAll => exact (hstep h.flushAll).bind hsame fun _ _ => hdone
  | scan table => exact (hstep (scanTable_upholds h.toParts table)).bind hsame fun _ _ => hdone
  | discard page => exact (hstep (.quietly (h.discard page))).bind hsame fun _ _ => hdone
  | append table =>
    have htable : Journaled.Leads Inv Inv (fun ref => db₀.ref? table = some ref)
        (quietly (Database.tableOf table)) := .quietly (h.tableOf table)
    refine (onSession_leads htable).bind hstart fun ref href => ?_
    exact (onSession_leads (happend table ref href)).bind hsame fun _ _ => hdone
  | edit handle ops =>
    refine hlook.bind hstart fun s _ => ?_
    cases s.held[handle]? with
    | none => exact hidle
    | some p => exact hstep (.quietly (h.edit p ops))
  | room path full => exact .quietly fun journal s hs => ⟨hroom journal s.db path full hs, trivial⟩

/-- **A deed** leads to where new pages lead, and pages that are written past the cache. -/
theorem performDeed_leads (h : db₀.Works Inv Found)
    (hinv : ∀ journal db, Inv journal db → Inv' journal db)
    (hnew : ∀ table ref row, db₀.ref? table = some ref →
      Journaled.Leads Inv Inv' Any (Journaled.placeOnNew ref row))
    (happend : ∀ table ref, db₀.ref? table = some ref →
      Journaled.Leads Inv Inv' Any (Journaled.appendPage ref))
    (hroom : ∀ journal db path full, Inv journal db →
      Inv' journal { db with disk := db.disk.withRoom path full }) {deed : Deed}
    (hwrite : ∀ table ref page, deed = .write table page → db₀.ref? table = some ref →
      Journaled.Leads Inv Inv' Any (Journaled.writePage table ref page)) :
    Journaled.Leads (fun journal s => Inv journal s.db) (fun journal s => Inv' journal s.db) Any
      (Journaled.performDeed deed) := by
  cases deed with
  | act act => exact perform_leads h hinv hnew happend hroom act
  | write table page =>
    have htable : Journaled.Leads Inv Inv (fun ref => db₀.ref? table = some ref)
        (quietly (Database.tableOf table)) := .quietly (h.tableOf table)
    refine (onSession_leads htable).bind (fun journal s => hinv journal s.db) fun ref href => ?_
    exact onSession_leads (hwrite table ref page rfl href)

/-- The session behind a deed is as good as what the deed leads to. -/
theorem holds_performDeed {P P' : Journal → Session → Prop} {deed : Deed}
    (hleads : Journaled.Leads P P' Any (Journaled.performDeed deed)) {journal : Journal}
    {s : Session} (hs : P journal s) :
    P' (journal ++ (Journaled.performDeed deed).journal s)
      (endState ((performDeed deed).run s)) := by
  have hend := hleads journal s hs
  rw [Journaled.run_performDeed] at hend
  generalize (performDeed deed).run s = r at hend ⊢
  cases r with
  | error e s' => exact hend
  | ok _ s' => exact hend.1

/-- Tables and pages stay in order. -/
theorem perform_upholds (act : Act) :
    Upholds (fun s => db₀.Stays s.db) Any (perform act) := by
  have hact : Journaled.Upholds (fun _ s => db₀.Stays s.db) Any (Journaled.perform act) :=
    perform_leads Database.stays_works (fun _ _ h => h)
      (fun _ ref row _ => Database.placeOnNew_stays ref row)
      (fun _ ref _ => Database.appendPage_stays ref)
      (fun _ db path full h => h.withDisk (db.disk.withRoom path full)) act
  rw [← Journaled.run_perform]
  exact hact.run

end Session
end RowStore
