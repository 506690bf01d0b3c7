/-
# Tables are numbered as they are opened

A table gets the next number when it is opened, and its name leads to that number from then on.
`Numbered` says what the catalog looks like when these tables have been opened in this order: the
two maps are inverse to each other, the numbers are those from zero on, and each has the file that
was opened for it.

A table that cannot be opened leaves no trace (`Numbered.openTable_error_iff`): there is nothing
that undoes a failed opening, since whatever can fail is done before anything is entered.  So
`Numbered` holds in every history (`Past.numbered`), whichever openings failed in it and whatever
sessions went on in between.
-/
import Mathlib.Data.List.Sort
import RowStore.Proofs.Database.Names
import RowStore.Proofs.Database.Typing
import RowStore.Proofs.Page.Geometry

namespace RowStore
namespace Database

/-! ## 1. Histories -/

/-- What can have happened to a database.  The tables were opened in it, in this order; others could
not be opened; and in between, anything went on that keeps to the same tables. -/
inductive Past (db₀ : Database) : List Opening → Database → Prop
  | start : Past db₀ [] db₀
  | opened {made : List Opening} {db db' : Database} {o : Opening} {ref : TableRef}
      (h : Past db₀ made db) (hrun : (openTable o.name o.path o.schema).run db = .ok ref db') :
      Past db₀ (made ++ [o]) db'
  | refused {made : List Opening} {db db' : Database} {o : Opening} {e : Error}
      (h : Past db₀ made db) (hrun : (openTable o.name o.path o.schema).run db = .error e db') :
      Past db₀ made db'
  | meanwhile {made : List Opening} {db db' : Database} (h : Past db₀ made db)
      (hsame : db.SameTables db') : Past db₀ made db'

/-- The openings that succeed when these are tried one after another. -/
def succeeding (db : Database) : List Opening → List Opening
  | [] => []
  | o :: openings =>
    match (openTable o.name o.path o.schema).run db with
    | .ok _ db => o :: db.succeeding openings
    | .error _ db => db.succeeding openings

/-- Files that are where they were are the same tables. -/
theorem sameTables_of_alike {db db' : Database} (h : Alike db db') : db.SameTables db' where
  catalog := h.catalog
  files i := by
    have hsite := congrArg (fun sites => sites[i]?.map fun site => (site.1, site.2.2)) h.sites
    simp only [Array.getElem?_map, Option.map_map] at hsite
    exact hsite

namespace Past

variable {db₀ db : Database} {made : List Opening}

/-- **Every sequence of openings** is a history, and those that succeed are what was opened. -/
theorem openAll (h : Past db₀ made db) (openings : List Opening) :
    Past db₀ (made ++ db.succeeding openings) (db.openAll openings) := by
  induction openings generalizing made db with
  | nil =>
    rw [succeeding, List.append_nil]
    exact h
  | cons o openings ih =>
    rw [succeeding, Database.openAll]
    cases hrun : (openTable o.name o.path o.schema).run db with
    | ok ref db' =>
      have hrest := ih (h.opened hrun)
      rwa [List.append_assoc] at hrest
    | error e db' => exact ih (h.refused hrun)

/-- **Any session** may go on in between: whatever it does, the tables stay. -/
theorem session (h : Past db₀ made db) (hsound : Sound db) (acts : List Act) :
    Past db₀ made ((Session.start db).after acts).db :=
  h.meanwhile (sameTables_of_alike (Session.stays_after (s := .start db) hsound acts).toAlike)

end Past

/-! ## 2. The numbers of tables -/

/-- The catalog has the tables of the openings, numbered from zero on in this order. -/
structure Numbered (pageSize : Nat) (made : List Opening) (db : Database) : Prop where
  pageSize_eq : db.catalog.pageSize = pageSize
  nextId : db.catalog.nextId = made.length
  nameOf? : ∀ id, db.catalog.nameOf? id = made[id]?.map (·.name)
  idOf?_eq_iff : ∀ name id, db.catalog.idOf? name = some id ↔ db.catalog.nameOf? id = some name
  file : ∀ id o, made[id]? = some o → ∃ f, db.table? id = some f ∧ f.id = id ∧
    f.layout.schema = o.schema ∧ f.layout.pageSize = pageSize

/-- Why a table cannot be opened when these have been. -/
inductive Refused (pageSize : Nat) (made : List Opening) (disk : Disk) (o : Opening) : Error → Prop
  | name (h : o.name ∈ made.map (·.name)) : Refused pageSize made disk o (.nameTaken o.name)
  | layout {e : Error} (h : o.name ∉ made.map (·.name))
      (hlayout : Layout.make o.schema pageSize = .error e) : Refused pageSize made disk o e
  | system {layout : Layout} {fault : IoFault} (h : o.name ∉ made.map (·.name))
      (hlayout : Layout.make o.schema pageSize = .ok layout)
      (hcreate : disk.create o.path = .error fault) : Refused pageSize made disk o (.io fault)

theorem numbered_empty {db : Database} {pageSize : Nat} (h : db.catalog = .empty pageSize) :
    db.Numbered pageSize [] where
  pageSize_eq := by rw [h]; rfl
  nextId := by rw [h]; rfl
  nameOf? id := by simp [h, Catalog.empty, Catalog.nameOf?]
  idOf?_eq_iff name id := by simp [h, Catalog.empty, Catalog.nameOf?, Catalog.idOf?]
  file id o ho := by simp at ho

theorem getElem?_snoc {α : Type} (as : List α) (a : α) (i : Nat) :
    (as ++ [a])[i]? = if as.length = i then some a else as[i]? := by
  split
  · rename_i hi
    rw [← hi, List.getElem?_concat_length]
  · rename_i hi
    rcases Nat.lt_or_gt_of_ne hi with hlt | hgt
    · rw [List.getElem?_eq_none (Nat.le_of_lt hlt),
        List.getElem?_eq_none (by rw [List.length_append]; exact hlt)]
    · exact List.getElem?_append_left hgt

namespace Numbered

variable {pageSize : Nat} {made : List Opening} {db : Database} {o : Opening}

theorem sameTables (h : db.Numbered pageSize made) {db' : Database} (hsame : db.SameTables db') :
    db'.Numbered pageSize made where
  pageSize_eq := by rw [hsame.catalog, h.pageSize_eq]
  nextId := by rw [hsame.catalog, h.nextId]
  nameOf? id := by rw [hsame.catalog, h.nameOf?]
  idOf?_eq_iff name id := by rw [hsame.catalog, h.idOf?_eq_iff]
  file id o ho := by
    obtain ⟨f, hf, hid, hschema, hsize⟩ := h.file id o ho
    obtain ⟨f', hf', hid', hlayout⟩ := hsame.exists_table hf
    exact ⟨f', hf', hid'.trans hid, hlayout ▸ hschema, hlayout ▸ hsize⟩

/-- The numbers of the tables are those from zero on. -/
theorem tableIds_eq (h : db.Numbered pageSize made) :
    db.catalog.tableIds = List.range made.length := by
  have hascending : db.catalog.tableIds.Pairwise (· < ·) :=
    Std.TreeMap.ordered_keys.imp Nat.compare_eq_lt.mp
  refine hascending.eq_of_mem_iff List.pairwise_lt_range fun id => ?_
  rw [Catalog.mem_tableIds, ← Option.isSome_iff_exists, h.nameOf?, Option.isSome_map,
    isSome_getElem?, List.mem_range]

/-- The names that are taken are those of the tables. -/
theorem contains_iff (h : db.Numbered pageSize made) (name : String) :
    db.catalog.ids.contains name = true ↔ name ∈ made.map (·.name) := by
  rw [Std.TreeMap.contains_eq_isSome_getElem?, Option.isSome_iff_exists, List.mem_iff_getElem?]
  refine exists_congr fun id => ?_
  change db.catalog.idOf? name = some id ↔ _
  rw [h.idOf?_eq_iff, h.nameOf?, List.getElem?_map]

/-- **One table more** gets the next number.  Its name is new, and so is its number, so neither map
loses an entry. -/
theorem withTable (h : db.Numbered pageSize made) (hname : o.name ∉ made.map (·.name))
    {layout : Layout} (hlayout : Layout.make o.schema pageSize = .ok layout) (place : String)
    (disk : Disk) : (db.withTable o.name layout place disk).Numbered pageSize (made ++ [o]) where
  pageSize_eq := h.pageSize_eq
  nextId := by
    rw [List.length_append, ← h.nextId]
    rfl
  nameOf? id := by
    rw [Catalog.nameOf?_withTable, h.nextId, h.nameOf?, getElem?_snoc]
    split <;> rfl
  idOf?_eq_iff name id := by
    rw [Catalog.idOf?_withTable, Catalog.nameOf?_withTable]
    by_cases hsame : o.name = name <;> by_cases hid : db.catalog.nextId = id
    · simp only [hsame, hid, if_true]
    · have hother : db.catalog.nameOf? id ≠ some name := by
        intro hname'
        rw [h.nameOf?, ← hsame, ← List.getElem?_map] at hname'
        exact hname (List.mem_of_getElem? hname')
      rw [if_pos hsame, if_neg hid, Option.some.injEq]
      exact iff_of_false hid hother
    · have hother : db.catalog.idOf? name ≠ some id := by
        rw [Ne, h.idOf?_eq_iff, h.nameOf?, ← hid, h.nextId, List.getElem?_eq_none (Nat.le_refl _)]
        simp
      rw [if_neg hsame, if_pos hid, Option.some.injEq]
      exact iff_of_false hother hsame
    · rw [if_neg hsame, if_neg hid, h.idOf?_eq_iff]
  file id o' ho' := by
    rw [getElem?_snoc, ← h.nextId] at ho'
    split at ho'
    · rename_i hid
      cases ho'
      have href : (db.withTable o.name layout place disk).ref? id = some ⟨db.files.size⟩ := by
        rw [ref?_withTable, if_pos hid.symm]
      obtain ⟨hschema, hsize⟩ := Layout.make_eq_ok_iff.mp hlayout
      exact ⟨_, (table?_of_ref href).trans Array.getElem?_push_size, hid, hschema, hsize⟩
    · rename_i hid
      obtain ⟨f, hf, hrest⟩ := h.file id o' ho'
      exact ⟨f, table?_withTable_of_ne (Ne.symm hid) hf, hrest⟩

/-- What does not let a table be opened. -/
theorem opened_error_iff (h : db.Numbered pageSize made) {e : Error} :
    db.opened o = .error e ↔ Refused pageSize made db.disk o e := by
  constructor
  · intro he
    rw [opened, h.pageSize_eq] at he
    split at he
    · rename_i htaken
      cases he
      exact .name ((h.contains_iff o.name).mp htaken)
    · rename_i hfree
      rw [h.contains_iff] at hfree
      split at he
      · rename_i hlayout
        cases he
        exact .layout hfree hlayout
      · rename_i layout hlayout
        split at he
        · rename_i hcreate
          cases he
          exact .system hfree hlayout hcreate
        · cases he
  · rintro (htaken | ⟨hfree, hlayout⟩ | ⟨hfree, hlayout, hcreate⟩)
    · rw [opened, if_pos ((h.contains_iff o.name).mpr htaken)]
    · rw [← h.contains_iff] at hfree
      rw [opened, if_neg hfree, h.pageSize_eq, hlayout]
    · rw [← h.contains_iff] at hfree
      simp only [opened, if_neg hfree, h.pageSize_eq, hlayout, hcreate]

/-- **A table is refused** for a reason, and then nothing has changed. -/
theorem openTable_error_iff (h : db.Numbered pageSize made) {e : Error} {db' : Database} :
    (openTable o.name o.path o.schema).run db = .error e db' ↔
      db' = db ∧ Refused pageSize made db.disk o e := by
  rw [openTable_run, ← h.opened_error_iff]
  cases db.opened o with
  | ok db₁ => simp
  | error e₁ =>
    rw [EStateM.Result.error.injEq, Except.error.injEq, eq_comm (a := db)]
    exact and_comm

/-- **A table is opened** under the next number. -/
theorem of_openTable (h : db.Numbered pageSize made) {ref : TableRef} {db' : Database}
    (hrun : (openTable o.name o.path o.schema).run db = .ok ref db') :
    db'.Numbered pageSize (made ++ [o]) ∧ db'.ref? made.length = some ref := by
  rw [openTable_run] at hrun
  cases ho : db.opened o with
  | error e =>
    rw [ho] at hrun
    cases hrun
  | ok db₁ =>
    rw [ho] at hrun
    cases hrun
    obtain ⟨layout, place, disk, hfree, hlayout, -, rfl⟩ := opened_cases ho
    rw [h.contains_iff] at hfree
    rw [h.pageSize_eq] at hlayout
    exact ⟨h.withTable hfree hlayout place disk, by rw [ref?_withTable, h.nextId, if_pos rfl]⟩

end Numbered

/-! ## 3. Every history -/

/-- **In every history** the tables have the numbers from zero on, in the order in which they were
opened.  A table that is opened now gets the next one; and if it is refused, this has one of three
reasons, and neither the catalog nor any file is touched. -/
theorem Past.numbered {db₀ db : Database} {made : List Opening} {pageSize : Nat}
    (hnew : db₀.catalog = .empty pageSize) (h : Past db₀ made db) :
    Numbered pageSize made db ∧ db.catalog.tableIds = List.range made.length ∧
      ∀ o : Opening,
        (∀ e db', (openTable o.name o.path o.schema).run db = .error e db' ↔
          db' = db ∧ Refused pageSize made db.disk o e) ∧
        ∀ ref db', (openTable o.name o.path o.schema).run db = .ok ref db' →
          db'.ref? made.length = some ref := by
  have hnumbered : Numbered pageSize made db := by
    induction h with
    | start => exact numbered_empty hnew
    | opened _ hrun ih => exact (ih.of_openTable hrun).1
    | refused _ hrun ih =>
      rw [(ih.openTable_error_iff.mp hrun).1]
      exact ih
    | meanwhile _ hsame ih => exact ih.sameTables hsame
  exact ⟨hnumbered, hnumbered.tableIds_eq, fun o =>
    ⟨fun e db' => hnumbered.openTable_error_iff, fun ref db' hrun =>
      (hnumbered.of_openTable hrun).2⟩⟩

end Database

/-- What is tried: a table; its name again; a table of rows without bytes; a table in a directory
that there is not; and that table in one that there is. -/
def Sample.attempts : List Opening :=
  [opening, ⟨"t", "v", schema⟩, ⟨"v", "v", ⟨[]⟩⟩, ⟨"u", "a/u", schema⟩, ⟨"u", "u", schema⟩]

open Sample in
theorem Database.Past.numbered_retried :
    (database 1).catalog = .empty 8 ∧
      Past (database 1) [opening, ⟨"u", "u", schema⟩] ((database 1).openAll attempts) ∧
      ((database 1).openAll attempts).Numbered 8 [opening, ⟨"u", "u", schema⟩] ∧
      ((database 1).openAll attempts).catalog.tableIds = [0, 1] := by
  have hmade : (database 1).succeeding attempts = [opening, ⟨"u", "u", schema⟩] := by cbv
  have hpast := (Past.start : Past (database 1) [] (database 1)).openAll attempts
  rw [hmade, List.nil_append] at hpast
  obtain ⟨hnumbered, hids, -⟩ := Past.numbered rfl hpast
  exact ⟨rfl, hpast, hnumbered, hids⟩

end RowStore
