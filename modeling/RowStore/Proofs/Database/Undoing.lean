/-
# What a failed insertion leaves in the files

A row that finds no free slot gets a page of its own, which is written behind the others.  If the row
cannot be put there after all, the file is cut back to the pages that it had.  A file that had nothing
behind its pages is then as long as it was, and outside of them nothing has changed.

But a file may have a part of a page behind its pages, which nobody looks at.  The new page is written
over it, and cutting the page off does not bring it back (`Session.part_of_page_lost`).  This is all
that can be lost, and the tables have the pages that they had (`Session.failed_insertion`).
-/
import RowStore.Proofs.Database.Failure

namespace RowStore

/-! ## 1. Behind the pages of a file -/

namespace Disk

def byte? (d : Disk) (path : String) (i : Nat) : Option UInt8 :=
  (d.file? path).bind (·.bytes[i]?)

/-- The file is as long on both disks, and the same from the position on. -/
structure SameFrom (d d' : Disk) (path : String) (start : Nat) : Prop where
  size : d'.size path = d.size path
  byte : ∀ i, start ≤ i → d'.byte? path i = d.byte? path i

namespace SameFrom

variable {d d' : Disk} {path : String} {start : Nat}

theorem refl (d : Disk) (path : String) (start : Nat) : d.SameFrom d path start :=
  ⟨rfl, fun _ _ => rfl⟩

theorem trans {d'' : Disk} (h : d.SameFrom d' path start) (h' : d'.SameFrom d'' path start) :
    d.SameFrom d'' path start where
  size := h'.size.trans h.size
  byte i hi := (h'.byte i hi).trans (h.byte i hi)

theorem of_file? (hfile : d'.file? path = d.file? path) : d.SameFrom d' path start := by
  constructor
  · rw [Disk.size, Disk.size, hfile]
  · intro i _
    rw [byte?, byte?, hfile]

/-- What is written in front of the position is none of it. -/
theorem write {offset : Nat} {data : Bytes} (hdata : data ≠ [])
    (hw : d.write path offset data = .ok d') (hfront : offset + data.length ≤ start)
    (hsize : start ≤ d.size path) : d.SameFrom d' path start := by
  obtain ⟨f, hf, -, rfl⟩ := exists_of_write hdata hw
  have hf' := file?_insert d path path { f with bytes := File.overwritten f.bytes offset data }
  rw [if_pos rfl] at hf'
  have hlength : d.size path = f.bytes.length := by
    rw [Disk.size, hf]
    rfl
  rw [hlength] at hsize
  constructor
  · rw [hlength, Disk.size, hf']
    refine (File.length_overwritten f.bytes offset data).trans ?_
    omega
  · intro i hi
    rw [byte?, byte?, hf', hf]
    refine (File.getElem?_overwritten f.bytes offset data i).trans ?_
    rw [if_neg (by omega), if_neg (by omega)]
    rfl

/-- Behind its end, a file has nothing. -/
theorem of_size (h : d.size path = start) (h' : d'.size path = start) :
    d.SameFrom d' path start := by
  have hnone : ∀ {disk : Disk}, disk.size path = start → ∀ i, start ≤ i →
      disk.byte? path i = none := by
    intro disk hsize i hi
    rw [byte?]
    rw [Disk.size] at hsize
    cases hf : disk.file? path with
    | none => rfl
    | some f =>
      rw [hf] at hsize
      have hlength : f.bytes.length = start := hsize
      exact List.getElem?_eq_none (by omega)
  constructor
  · rw [h, h']
  · intro i hi
    rw [hnone h i hi, hnone h' i hi]

end SameFrom

/-- There is nothing in front of the last page that a file does not have. -/
theorem Carries.le_size {d : Disk} {path : String} {size count : Nat}
    (h : d.Carries path size count) : count * size ≤ d.size path := by
  obtain ⟨f, hf, -, hle, -⟩ := h
  rw [Disk.size, hf]
  exact hle

end Disk

/-! ## 2. What steps change there -/

namespace Sound

variable {db db' : Database} {id : TableId} {x : Extent}

/-- **Quiet steps** change nothing behind the pages of a table: what they write are pages that are
there. -/
theorem sameFrom_quiet (h : Sound db) (hq : Quiet db db') (hx : db.extent? id = some x) :
    db.disk.SameFrom db'.disk x.path (x.count * x.layout.pageSize) := by
  cases hq with
  | count table => exact .refl ..
  | touch id' => exact .refl ..
  | @writeBack id' frame y disk hframe hdirty hy hwrite =>
    obtain ⟨y', hy', hadmits⟩ := h.cached hframe
    obtain rfl : y = y' := Option.some.inj (hy.symm.trans hy')
    have himage := hadmits.length_encode
    have hlt := hadmits.lt_count ((h.carried hy).not_endless himage hwrite)
    by_cases hpath : x.path = y.path
    · obtain rfl : id = id'.table := h.apart hx hy hpath
      obtain rfl : x = y := Option.some.inj (hx.symm.trans hy)
      have hne : frame.page.encode ≠ [] := by
        intro hnil
        rw [hnil] at himage
        exact Nat.ne_of_lt x.layout.pageSize_pos himage
      have hfront := Nat.mul_le_mul_right x.layout.pageSize hlt
      rw [Nat.succ_mul] at hfront
      exact .write hne hwrite (himage ▸ hfront) (h.carried hx).le_size
    · have hother := ((h.carried hy).write (Nat.le_of_lt hlt) himage hwrite).2.2.2.1
      exact .of_file? (hother _ hpath)
  | evict hframe hclean hpins => exact .refl ..
  | load habsent hroom hy hread hdecode => exact .refl ..

theorem sameFrom_quiets (h : Sound db) (hq : Quiets db db') (hx : db.extent? id = some x) :
    db.disk.SameFrom db'.disk x.path (x.count * x.layout.pageSize) := by
  induction hq with
  | refl => exact .refl ..
  | tail hq hstep ih =>
    have hx' := (congrFun (h.extent?_quiets hq) id).trans hx
    exact ih.trans ((h.quiets hq).sameFrom_quiet hstep hx')

end Sound

/-- **What fails** changes nothing behind the pages of a table, or it leaves nothing there: a page has
been appended and cut off again. -/
theorem Failing.sameFrom_or_cut {db db' : Database} (hf : Failing db db') (h : Sound db)
    {id : TableId} {x : Extent} (hx : db.extent? id = some x) :
    db.disk.SameFrom db'.disk x.path (x.count * x.layout.pageSize) ∨
      db'.disk.size x.path = x.count * x.layout.pageSize := by
  cases hf with
  | quiet hq => exact Or.inl (h.sameFrom_quiets hq hx)
  | @undone table y db₁ db₂ disk disk' before hy hwrite between hy' habsent hcut hdb' =>
    have h₁ := h.quiets before
    have h₂ := h₁.step (.append hy hwrite)
    have hx₁ := (congrFun (h.extent?_quiets before) id).trans hx
    obtain ⟨f, hfile, -, hdisk'⟩ := Disk.exists_of_resize hcut
    by_cases hid : id = table
    · subst hid
      obtain rfl : x = y := Option.some.inj (hx₁.symm.trans hy)
      refine Or.inr ?_
      rw [hdb']
      change disk'.size x.path = _
      rw [hdisk', Disk.size, Disk.file?_insert, if_pos rfl]
      exact File.length_fitted _ _
    · -- the page was appended to the file of another table
      have hpath : x.path ≠ y.path := fun hpath => hid (h₁.apart hx₁ hy hpath)
      have hx₂ : (db₁.written table y.count disk).extent? id = some x := by
        rw [Database.extent?_written h₁.registered, if_neg hid, hx₁]
      have happend : db₁.disk.SameFrom disk x.path (x.count * x.layout.pageSize) :=
        .of_file? (((h₁.carried hy).write (Nat.le_refl _) List.length_replicate hwrite).2.2.2.1 _
          hpath)
      have hback : db₂.disk.SameFrom disk' x.path (x.count * x.layout.pageSize) := by
        refine .of_file? ?_
        rw [hdisk', Disk.file?_insert, if_neg hpath]
      have hbefore := h.sameFrom_quiets before hx
      have hbetween := h₂.sameFrom_quiets between hx₂
      refine Or.inl ?_
      rw [hdb']
      exact ((hbefore.trans happend).trans hbetween).trans hback

/-! ## 3. The result -/

namespace Session

open Database

/-- **What a failed insertion leaves in the files.**  Take tables that any openings have led to, each
with a file of its own, any session on them, and an insertion into one of the tables that fails.
Then the tables have the pages that they had, and their files are as long as they were and the same
behind the pages; only that a file may have lost a part of a page, and ends with its pages then. -/
theorem failed_insertion {disk : Disk} {pageSize capacity : Nat} {db₀ : Database}
    (h₀ : onDisk disk pageSize capacity = .ok db₀) (openings : List Opening)
    (hseparate : (db₀.openAll openings).Separate) (acts : List Act) {s : Session}
    (hs : s = (start (db₀.openAll openings)).after acts) {table : TableId} {ref : TableRef}
    (href : s.db.ref? table = some ref) {row : Row} {e : Error} {db' : Database}
    (hfail : (insertInFile ref row).run s.db = .error e db') :
    db'.extent? = s.db.extent? ∧ ∀ id x, s.db.extent? id = some x →
      s.db.disk.SameFrom db'.disk x.path (x.count * x.layout.pageSize) ∨
        x.count * x.layout.pageSize < s.db.disk.size x.path ∧
          db'.disk.size x.path = x.count * x.layout.pageSize := by
  have h : Sound s.db := by
    rw [hs]
    exact sound_after (sound_openAll h₀ hseparate).1 acts
  have hacted := h.insertInFile_acted href row
  rw [hfail] at hacted
  have hf : Failing s.db db' := hacted
  refine ⟨hf.extent?_eq h, ?_⟩
  intro id x hx
  rcases hf.sameFrom_or_cut h hx with hsame | hcut
  · exact Or.inl hsame
  · rcases Nat.eq_or_lt_of_le (h.carried hx).le_size with hwhole | hpart
    · exact Or.inl (.of_size hwhole.symm hcut)
    · exact Or.inr ⟨hpart, hcut⟩

end Session

/-! A table of one page, which is full, with three bytes more in its file. -/

namespace Sample

def ragged : Disk :=
  ⟨(∅ : Std.TreeMap String File).insert "t"
    ⟨[1, 7, 0, 0, 0, 0, 0, 0, 170, 187, 204], false, false⟩⟩

def raggedDatabase : Database := { database 1 with disk := ragged }

theorem openAll_ragged :
    raggedDatabase.openAll [opening] = raggedDatabase.withTable "t" layout "t" ragged := by
  rw [Database.openAll_cons, raggedDatabase, opened_of_create (by cbv)]
  rfl

theorem separate_ragged : (raggedDatabase.openAll [opening]).Separate := by
  rw [openAll_ragged]
  refine (Database.ordinary_withTable rfl rfl rfl fun number hnumber => ?_).separate
  have hcount : ragged.size "t" / 8 = 1 := by cbv
  obtain rfl : number = 0 := Nat.lt_one_iff.mp (hcount ▸ hnumber)
  exact ⟨[1, 7, 0, 0, 0, 0, 0, 0], _, rfl, by cbv⟩

/-- The page of the table is held, in a pool of one page. -/
def holdingRagged : Session :=
  (Session.start (raggedDatabase.openAll [opening])).after [.get ⟨0, 0⟩]

/-- There is no frame for the page that a row needs. -/
theorem insert_holdingRagged : ∃ db', (Database.insertInFile ⟨0⟩ row).run holdingRagged.db =
    .error .allPinned db' ∧ holdingRagged.db.disk.size "t" = 11 ∧ db'.disk.size "t" = 8 ∧
      db'.disk.byte? "t" 8 = none := by
  unfold holdingRagged
  rw [openAll_ragged]
  exact ⟨_, by cbv, by cbv, by cbv, by cbv⟩

end Sample

namespace Session

open Database

/-- The row is not stored, and the three bytes are gone. -/
theorem failed_insertion_ragged :
    ∃ (acts : List Act) (s : Session) (e : Error) (db' : Database),
      onDisk Sample.ragged 8 1 = .ok Sample.raggedDatabase ∧
      (Sample.raggedDatabase.openAll [Sample.opening]).Separate ∧
      s = (start (Sample.raggedDatabase.openAll [Sample.opening])).after acts ∧
      s.db.ref? 0 = some ⟨0⟩ ∧ (insertInFile ⟨0⟩ Sample.row).run s.db = .error e db' ∧
      db'.extent? = s.db.extent? ∧ ∀ id x, s.db.extent? id = some x →
        s.db.disk.SameFrom db'.disk x.path (x.count * x.layout.pageSize) ∨
          x.count * x.layout.pageSize < s.db.disk.size x.path ∧
            db'.disk.size x.path = x.count * x.layout.pageSize := by
  have h₀ : onDisk Sample.ragged 8 1 = .ok Sample.raggedDatabase := rfl
  obtain ⟨db', hfail, -⟩ := Sample.insert_holdingRagged
  have href : Sample.holdingRagged.db.ref? 0 = some ⟨0⟩ := by
    unfold Sample.holdingRagged
    rw [Sample.openAll_ragged]
    cbv
  have hkept := failed_insertion h₀ [Sample.opening] Sample.separate_ragged [.get ⟨0, 0⟩] rfl href
    hfail
  exact ⟨[.get ⟨0, 0⟩], Sample.holdingRagged, .allPinned, db', h₀, Sample.separate_ragged, rfl, href,
    hfail, hkept⟩

/-- **A part of a page is lost**: the file is shorter behind an insertion that fails, although the
file is an ordinary one and can be cut. -/
theorem part_of_page_lost :
    ∃ (acts : List Act) (s : Session) (db' : Database),
      onDisk Sample.ragged 8 1 = .ok Sample.raggedDatabase ∧
      (Sample.raggedDatabase.openAll [Sample.opening]).Separate ∧
      s = (start (Sample.raggedDatabase.openAll [Sample.opening])).after acts ∧
      (insertInFile ⟨0⟩ Sample.row).run s.db = .error .allPinned db' ∧
      s.db.disk.size "t" = 11 ∧ db'.disk.size "t" = 8 ∧ ¬ s.db.disk.SameFrom db'.disk "t" 8 := by
  obtain ⟨db', hfail, hbefore, hbehind, -⟩ := Sample.insert_holdingRagged
  refine ⟨[.get ⟨0, 0⟩], Sample.holdingRagged, db', rfl, Sample.separate_ragged, rfl, hfail, hbefore,
    hbehind, ?_⟩
  intro hsame
  have hsize := hsame.size
  rw [hbefore, hbehind] at hsize
  cases hsize

end Session
end RowStore
