/-
# Numbers of pages, and words

A table counts its pages: the count is taken from the length of the file when the table is opened,
and then it is kept beside the file and follows its changes.  So behind any deeds the count is the
one that comes of the journal (`Session.pageCount?_afterDeeds`).

Numbers of pages have no bound here.  A machine has words of thirty-two bits for them, in which a
sum starts again from zero, and words of sixty-four bits for places in files.  As long as a table
has fewer than `2 ^ 32` pages all the while, a machine that counts in words has the same count
(`Session.pageCount?_inWords`).  The count that a table is opened with can be cut to a word then
(`Database.count_openedInWords`); the places of its pages and what is asked of the count come out
alike, too (`PageId.toNat_offsetInWords`, `TableFile.asks_inWords`).
-/
import RowStore.Proofs.Database.Reopening
import RowStore.Proofs.Stream.Acting

namespace RowStore

/-! ## 1. Counts that follow changes -/

namespace FileChange

/-- The number of pages behind a change. -/
def recount (count : Nat) : FileChange → Nat
  | .write page => max count (page.id.number + 1)
  | .append => count + 1
  | .cut number => number

/-- The number of pages behind changes. -/
def countAfter (count : Nat) (changes : List FileChange) : Nat := changes.foldl recount count

theorem countAfter_append (count : Nat) (changes : List FileChange) (change : FileChange) :
    countAfter count (changes ++ [change]) = recount (countAfter count changes) change := by
  rw [countAfter, List.foldl_append]
  rfl

end FileChange

/-- The number of pages that a table has when it has had the first number of them, and the changes
of the journal have been made since then. -/
def Journal.countOf (journal : Journal) (table : TableId) (first : Nat) : Nat :=
  FileChange.countAfter first (journal.changesOf table)

namespace Journal

variable {journal : Journal} {table : TableId} {first : Nat} {change : FileChange}

theorem countOf_enter : countOf (journal ++ [⟨table, change⟩]) table first =
    change.recount (countOf journal table first) := by
  rw [countOf, changesOf_enter, FileChange.countAfter_append, countOf]

theorem countOf_enter_of_ne {other : TableId} (hne : other ≠ table) :
    countOf (journal ++ [⟨other, change⟩]) table first = countOf journal table first := by
  rw [countOf, changesOf_enter_of_ne hne, countOf]

end Journal

/-! ## 2. The count of a table is what the journal says -/

/-- The table has the count that comes of the journal. -/
structure Database.Counts (db₀ : Database) (table : TableId) (first : Nat) (journal : Journal)
    (db : Database) : Prop where
  stays : db₀.Stays db
  count : db.pageCount? table = some (journal.countOf table first)

namespace Database.Counts

variable {db₀ db db' : Database} {table : TableId} {first : Nat} {journal : Journal}

theorem extent (h : db₀.Counts table first journal db) :
    ∃ x, db.extent? table = some x ∧ x.count = journal.countOf table first := by
  have hcount := h.count
  rwa [pageCount?_eq, Option.map_eq_some_iff] at hcount

/-- What leaves the files alone leaves the counts alone. -/
theorem congr (h : db₀.Counts table first journal db) (hstays : db₀.Stays db')
    (hextent : db'.extent? table = db.extent? table) : db₀.Counts table first journal db' where
  stays := hstays
  count := by rw [pageCount?_eq, hextent, ← pageCount?_eq, h.count]

/-- A file changes, and the entry in the journal says how its count does. -/
theorem change (h : db₀.Counts table first journal db) {id : TableId} {change : FileChange}
    (hstays : db₀.Stays db') (hextent : db'.extent? table =
      if table = id then (db.extent? id).map fun x => { x with count := change.recount x.count }
      else db.extent? table) :
    db₀.Counts table first (journal ++ [⟨id, change⟩]) db' := by
  refine ⟨hstays, ?_⟩
  obtain ⟨x, hx, hcount⟩ := h.extent
  by_cases hid : table = id
  · subst hid
    rw [pageCount?_eq, hextent, if_pos rfl, hx, Journal.countOf_enter, ← hcount]
    rfl
  · rw [pageCount?_eq, hextent, if_neg hid, hx, Journal.countOf_enter_of_ne (Ne.symm hid), ← hcount]
    rfl

theorem modifyPool_upholds {change : Pool → Pool}
    (hstays : Upholds db₀.Stays Any (modifyPool change)) :
    Upholds (db₀.Counts table first journal) Any (modifyPool change) :=
  fun db h => ⟨h.congr (hstays db h.stays).1 rfl, trivial⟩

/-- Reads are counted beside the pages. -/
theorem counted (h : db₀.Counts table first journal db) (id : TableId) :
    db₀.Counts table first journal (db.counted id) :=
  h.congr (h.stays.modifyTable id (fun _ => rfl) fun _ => rfl)
    (congrFun (extent?_counted h.stays.typed.registered id) table)

/-- A page is put into a file, whether there was one in its place or not. -/
theorem written (h : db₀.Counts table first journal db) {id : TableId} {number : Nat} {disk : Disk}
    {change : FileChange} (hchange : ∀ count, db.pageCount? id = some count →
      change.recount count = max count (number + 1)) :
    db₀.Counts table first (journal ++ [⟨id, change⟩]) (db.written id number disk) := by
  refine h.change (h.stays.written id number disk) ?_
  rw [extent?_written h.stays.typed.registered]
  split
  · refine Option.map_congr fun x hx => ?_
    rw [hchange x.count (by rw [pageCount?_eq, hx, Option.map_some])]
  · rfl

theorem shrunk (h : db₀.Counts table first journal db) {id : TableId} {number : Nat} {disk : Disk} :
    db₀.Counts table first (journal ++ [⟨id, .cut number⟩]) (db.shrunk id number disk) :=
  h.change (h.stays.shrunk id number disk) (extent?_shrunk h.stays.typed.registered table)

/-- **Every operation** keeps the count with its journal. -/
theorem works : db₀.Works (db₀.Counts table first) fun id page => page.Suits db₀ id where
  stays _ _ h := h.stays
  readPage href number _ := readPage_keeps (fun _ h => h.stays) href number
    (fun _ h => h.counted _) fun _ _ _ _ _ _ _ _ hsuits => hsuits
  writeBack id := by
    refine writeBack_leads (fun _ _ h => h.stays) (fun _ _ h => h) id ?_
    intro journal db frame x disk h hframe _ _ _ hstays
    have hnumber : frame.page.id = id := (h.stays.cached hframe).id_eq
    have hwritten : db₀.Counts table first (journal ++ [⟨id.table, .write frame.page⟩])
        (db.written id.table id.number disk) :=
      h.written fun count _ => by rw [FileChange.recount, hnumber]
    exact hwritten.congr hstays rfl
  touch id _ := modifyPool_upholds (touch_upholds id)
  drop id _ := modifyPool_upholds (drop_upholds id)
  load hpage _ db h :=
    have hstays := load_upholds hpage db h.stays
    ⟨h.congr hstays.1 rfl, hpage⟩
  change hpage _ := modifyPool_upholds (modifyPage_upholds _ fun _ _ => hpage)
  hold id _ := modifyPool_upholds (modifyCache_upholds id fun _ h => h)
  unpin p _ := .bind (modifyPool_upholds (modifyPinned_upholds p fun _ _ h => h)) fun _ _ =>
    modifyPool_upholds clearDetached_upholds
  edit p ops _ := modifyPool_upholds (modifyPinned_upholds p fun _ _ h => h.performAll ops)

section Files

variable {id : TableId} {ref : TableRef}

theorem appendPage_upholds (href : db₀.ref? id = some ref) :
    Journaled.Upholds (db₀.Counts table first) Any (Journaled.appendPage ref) := by
  refine appendPage_leads (fun _ _ h => h.stays) (fun _ _ h => h) href ?_
  intro journal db x disk h hx _
  refine h.written fun count hcount => ?_
  rw [pageCount?_eq, hx, Option.map_some, Option.some.injEq] at hcount
  rw [FileChange.recount, hcount, Nat.max_eq_right (Nat.le_succ _)]

theorem removeLastPage_upholds (href : db₀.ref? id = some ref) (page : PageId) :
    Journaled.Upholds (db₀.Counts table first) Any (Journaled.removeLastPage ref page) :=
  removeLastPage_leads (fun _ _ h => h.stays) (fun _ _ h => h) href page
    fun _ _ _ _ h _ _ _ => h.shrunk

theorem writePage_upholds (href : db₀.ref? id = some ref) (page : Page) :
    Journaled.Upholds (db₀.Counts table first) Any (Journaled.writePage id ref page) :=
  writePage_leads (fun _ _ h => h.stays) (fun _ _ h => h) href page
    fun _ _ _ _ h _ _ => h.written fun _ _ => rfl

end Files

/-- **A deed** keeps the count with the journal. -/
theorem performDeed_upholds (deed : Deed) :
    Journaled.Upholds (fun journal s => db₀.Counts table first journal s.db) Any
      (Journaled.performDeed deed) := by
  refine Session.performDeed_leads works (fun _ _ h => h) ?_ (fun _ _ => appendPage_upholds) ?_
    fun _ _ page _ href => writePage_upholds href page
  · intro id ref row href
    exact works.placeOnNew (appendPage_upholds href) (removeLastPage_upholds href) row
  · intro journal db path full h
    exact h.congr (h.stays.withDisk _) rfl

end Database.Counts

/-! ## 3. Behind deeds -/

namespace Session

/-- **The count of a table** behind any deeds is what the journal of them says. -/
theorem pageCount?_afterDeeds {db₀ : Database} (htyped : db₀.Typed) {table : TableId} {first : Nat}
    (hfirst : db₀.pageCount? table = some first) (deeds : List Deed) :
    ((start db₀).afterDeeds deeds).db.pageCount? table =
      some (((start db₀).journal deeds).countOf table first) := by
  have hstart : db₀.Counts table first [] (start db₀).db := ⟨⟨.refl _, htyped⟩, hfirst⟩
  have hend : db₀.Counts table first ((start db₀).journal deeds)
      ((start db₀).afterDeeds deeds).db :=
    afterDeeds_induction (P := fun journal s => db₀.Counts table first journal s.db)
      (fun _ _ deed _ h => holds_performDeed (Database.Counts.performDeed_upholds deed) h) hstart
  exact hend.count

end Session

/-! ## 4. In words -/

namespace FileChange

/-- What a machine makes of a count, in words of thirty-two bits. -/
def recountInWords (count : UInt32) : FileChange → UInt32
  | .write page => max count (.ofNat page.id.number + 1)
  | .append => count + 1
  | .cut number => .ofNat number

def countInWords (count : UInt32) (changes : List FileChange) : UInt32 :=
  changes.foldl recountInWords count

theorem toNat_max (a b : UInt32) : (max a b).toNat = max a.toNat b.toNat := by
  change (if a ≤ b then b else a).toNat = max a.toNat b.toNat
  split
  · rename_i hle
    exact (Nat.max_eq_right (UInt32.le_iff_toNat_le.mp hle)).symm
  · rename_i hle
    exact (Nat.max_eq_left (Nat.le_of_not_le fun h => hle (UInt32.le_iff_toNat_le.mpr h))).symm

theorem toNat_ofNat_add_one {n : Nat} (h : n + 1 < 2 ^ 32) :
    (UInt32.ofNat n + 1).toNat = n + 1 := by
  rw [UInt32.toNat_add, UInt32.toNat_ofNat_of_lt' (Nat.lt_of_succ_lt h), UInt32.toNat_one]
  exact Nat.mod_eq_of_lt h

/-- A change leads to the same count, if that is one of a word. -/
theorem toNat_recountInWords {count : UInt32} {change : FileChange}
    (hnarrow : change.recount count.toNat < 2 ^ 32) :
    (change.recountInWords count).toNat = change.recount count.toNat := by
  cases change with
  | write page =>
    have hnumber : page.id.number + 1 < 2 ^ 32 := Nat.lt_of_le_of_lt (Nat.le_max_right _ _) hnarrow
    rw [recountInWords, toNat_max, toNat_ofNat_add_one hnumber, recount]
  | append =>
    have hsum : count.toNat + 1 < 2 ^ 32 := hnarrow
    rw [recountInWords, UInt32.toNat_add, UInt32.toNat_one, recount]
    omega
  | cut number => exact UInt32.toNat_ofNat_of_lt' hnarrow

/-- **A machine counts alike**, as long as there are fewer than `2 ^ 32` pages all the while.  By
induction on the changes, the last one first. -/
theorem toNat_countInWords {first : Nat} {changes : List FileChange}
    (hnarrow : ∀ earlier, earlier <+: changes → countAfter first earlier < 2 ^ 32) :
    (countInWords (.ofNat first) changes).toNat = countAfter first changes := by
  induction changes using List.reverseRecOn with
  | nil => exact UInt32.toNat_ofNat_of_lt' (hnarrow [] (List.prefix_refl _))
  | append_singleton changes change ih =>
    have hbefore := ih fun earlier hearlier =>
      hnarrow earlier (hearlier.trans (List.prefix_append _ _))
    have hbehind := hnarrow _ (List.prefix_refl _)
    rw [countAfter_append, ← hbefore] at hbehind
    rw [countInWords, List.foldl_append, countAfter_append, ← hbefore]
    exact toNat_recountInWords hbehind

end FileChange

/-- **The count in words** behind any deeds is that of the table. -/
theorem Session.pageCount?_inWords {db₀ : Database} (htyped : db₀.Typed) {table : TableId}
    {first : Nat} (hfirst : db₀.pageCount? table = some first) (deeds : List Deed)
    {changes : List FileChange} (hchanges : changes = ((start db₀).journal deeds).changesOf table)
    (hnarrow : ∀ earlier, earlier <+: changes → FileChange.countAfter first earlier < 2 ^ 32) :
    ((start db₀).afterDeeds deeds).db.pageCount? table =
      some (FileChange.countInWords (.ofNat first) changes).toNat := by
  rw [pageCount?_afterDeeds htyped hfirst deeds, FileChange.toNat_countInWords hnarrow, hchanges,
    Journal.countOf]

/-- **The count of a table that is opened** is the length of its file by the size of a page, and can
be cut to a word. -/
theorem Database.count_openedInWords {db db' : Database} {o : Opening} {ref : TableRef}
    (hrun : (openTable o.name o.path o.schema).run db = .ok ref db') :
    ∃ f, db'.files[ref.index]? = some f ∧
      (db'.disk.size f.path < 2 ^ 64 → db.catalog.pageSize < 2 ^ 64 → f.pageCount < 2 ^ 32 →
        (UInt64.ofNat (db'.disk.size f.path) / UInt64.ofNat db.catalog.pageSize).toUInt32.toNat =
          f.pageCount) := by
  rw [openTable_run] at hrun
  cases hopened : db.opened o with
  | error e =>
    rw [hopened] at hrun
    cases hrun
  | ok db₁ =>
    rw [hopened] at hrun
    cases hrun
    obtain ⟨layout, place, disk, -, -, -, rfl⟩ := opened_cases hopened
    refine ⟨_, Array.getElem?_push_size, fun hsize hpageSize hcount => ?_⟩
    change disk.size place < 2 ^ 64 at hsize
    change disk.size place / db.catalog.pageSize < 2 ^ 32 at hcount
    change (UInt64.ofNat (disk.size place) / UInt64.ofNat db.catalog.pageSize).toUInt32.toNat =
      disk.size place / db.catalog.pageSize
    rw [UInt64.toNat_toUInt32, UInt64.toNat_div, UInt64.toNat_ofNat_of_lt' hsize,
      UInt64.toNat_ofNat_of_lt' hpageSize]
    exact Nat.mod_eq_of_lt hcount

/-- Where a page starts, in words of sixty-four bits. -/
def PageId.offsetInWords (number : UInt32) (pageSize : UInt64) : UInt64 :=
  number.toUInt64 * pageSize

theorem PageId.toNat_offsetInWords {page : PageId} {pageSize : Nat} (hnumber : page.number < 2 ^ 32)
    (hsize : pageSize < 2 ^ 64) (hplace : page.offset pageSize < 2 ^ 64) :
    (offsetInWords (.ofNat page.number) (.ofNat pageSize)).toNat = page.offset pageSize := by
  rw [offsetInWords, UInt64.toNat_mul, UInt32.toNat_toUInt64, UInt32.toNat_ofNat_of_lt' hnumber,
    UInt64.toNat_ofNat_of_lt' hsize]
  exact Nat.mod_eq_of_lt hplace

/-- What is asked of a count: whether a page is behind the end, and whether it is the last one. -/
theorem TableFile.asks_inWords {f : TableFile} {number : Nat} (hcount : f.pageCount < 2 ^ 32)
    (hnumber : number + 1 < 2 ^ 32) :
    (UInt32.ofNat f.pageCount ≤ UInt32.ofNat number ↔ f.pageCount ≤ number) ∧
      (UInt32.ofNat f.pageCount = UInt32.ofNat number + 1 ↔ f.pageCount = number + 1) := by
  have hword : (UInt32.ofNat f.pageCount).toNat = f.pageCount := UInt32.toNat_ofNat_of_lt' hcount
  have hpage : (UInt32.ofNat number).toNat = number :=
    UInt32.toNat_ofNat_of_lt' (Nat.lt_of_succ_lt hnumber)
  constructor
  · rw [UInt32.le_iff_toNat_le, hword, hpage]
  · rw [← UInt32.toNat_inj, hword, FileChange.toNat_ofNat_add_one hnumber]

end RowStore
