/-
# Names of tables

The catalog finds tables by number and by name, in two maps.  Whatever name a table has leads back
to it (`Catalog.Paired`), so no two tables have one name (`Catalog.Paired.eq_of_name`).

Opening a table keeps this, because it looks for the name first (`Catalog.Paired.opened`), and
nothing else touches the catalog.  So it holds in every session (`Session.paired_after`).
-/
import RowStore.Proofs.Database.Reopening

namespace RowStore

namespace Catalog

theorem mem_tableIds {c : Catalog} {id : TableId} :
    id ∈ c.tableIds ↔ ∃ name, c.nameOf? id = some name := by
  rw [tableIds, Std.TreeMap.mem_keys, Std.TreeMap.mem_iff_isSome_getElem?, Option.isSome_iff_exists]
  simp only [nameOf?, Option.map_eq_some_iff]
  constructor
  · rintro ⟨entry, hentry⟩
    exact ⟨_, entry, hentry, rfl⟩
  · rintro ⟨name, entry, hentry, -⟩
    exact ⟨entry, hentry⟩

theorem nodup_tableIds (c : Catalog) : c.tableIds.Nodup := Std.TreeMap.nodup_keys

/-- The name of a table leads to the table. -/
def Paired (c : Catalog) : Prop :=
  ∀ {id : TableId} {name : String}, c.nameOf? id = some name → c.idOf? name = some id

/-- Two tables have two names. -/
theorem Paired.eq_of_name {c : Catalog} (h : c.Paired) {a b : TableId} {name : String}
    (ha : c.nameOf? a = some name) (hb : c.nameOf? b = some name) : a = b :=
  Option.some.inj ((h ha).symm.trans (h hb))

theorem paired_empty (pageSize : Nat) : (empty pageSize).Paired := by
  intro id name hname
  simp [empty, nameOf?] at hname

theorem nameOf?_withTable (db : Database) (name place : String) (layout : Layout) (disk : Disk)
    (id : TableId) : (db.withTable name layout place disk).catalog.nameOf? id =
      if db.catalog.nextId = id then some name else db.catalog.nameOf? id := by
  rw [nameOf?, Database.withTable, Std.TreeMap.getElem?_insert]
  simp only [Std.compare_eq_iff_eq]
  split <;> rfl

theorem idOf?_withTable (db : Database) (name place : String) (layout : Layout) (disk : Disk)
    (other : String) : (db.withTable name layout place disk).catalog.idOf? other =
      if name = other then some db.catalog.nextId else db.catalog.idOf? other := by
  rw [idOf?, Database.withTable, Std.TreeMap.getElem?_insert]
  simp only [Std.compare_eq_iff_eq]
  rfl

/-- **A table that is opened** has a name that was free. -/
theorem Paired.opened {db db' : Database} (h : db.catalog.Paired) {o : Opening}
    (ho : db.opened o = .ok db') : db'.catalog.Paired := by
  obtain ⟨layout, place, disk, hfree, -, -, rfl⟩ := Database.opened_cases ho
  intro id name hname
  rw [nameOf?_withTable] at hname
  rw [idOf?_withTable]
  split at hname
  · rename_i hid
    rw [if_pos (Option.some.inj hname), hid]
  · have hold := h hname
    have hne : o.name ≠ name := by
      rintro rfl
      rw [Std.TreeMap.contains_eq_isSome_getElem?] at hfree
      exact hfree (Option.isSome_of_mem hold)
    rw [if_neg hne, hold]

end Catalog

theorem Database.paired_openAll {db : Database} (h : db.catalog.Paired) (openings : List Opening) :
    (db.openAll openings).catalog.Paired := by
  induction openings generalizing db with
  | nil => exact h
  | cons o openings ih =>
    rw [openAll_cons]
    refine ih ?_
    cases ho : db.opened o with
    | error e => exact h
    | ok db' => exact h.opened ho

/-- **In every session** the names lead to the tables. -/
theorem Session.paired_after {s : Session} (h : Sound s.db) (hnames : s.db.catalog.Paired)
    (acts : List Act) : (s.after acts).db.catalog.Paired := by
  rw [(stays_after h acts).catalog]
  exact hnames

end RowStore
