/-
# Files of whole pages

A file of whole pages ends just behind its last page.  A page may be written to any place of it, far
behind its end, too: then the pages in between come to be there and hold zeros (`Whole.write`).  The
file may be cut in front of any page (`Whole.cut`).  After either it is a file of whole pages again,
and a page can be read just if it is one of them (`Whole.read`, `Whole.read_behind`).
-/
import RowStore.Proofs.Database.Extents

namespace RowStore

/-! ## 1. Bytes in a gap -/

/-- Between the end of a file and what is written behind it there are zeros. -/
theorem File.slice_gap {bytes : Bytes} {offset start count : Nat} (data : Bytes)
    (hbehind : bytes.length ≤ start) (hfront : start + count ≤ offset) :
    slice (overwritten bytes offset data) start count = List.replicate count 0 := by
  refine List.ext_getElem? fun i => ?_
  rw [getElem?_slice, getElem?_overwritten, List.getElem?_replicate]
  by_cases hi : i < count
  · rw [if_pos hi, if_pos hi, if_pos (by omega), List.getElem?_eq_none (by omega),
      Option.getD_none]
  · rw [if_neg hi, if_neg hi]

/-- Two pages do not overlap. -/
theorem page_apart {m n size : Nat} (h : m < n) : m * size + size ≤ n * size := by
  have hle := Nat.mul_le_mul_right size h
  rwa [Nat.succ_mul] at hle

namespace Disk

/-- The bytes of a file, and whether it has an end.  This is what can be read of it. -/
def shown? (d : Disk) (path : String) : Option (Bytes × Bool) :=
  (d.file? path).map fun f => (f.bytes, f.endless)

section Shown

variable {d d' : Disk} {path : String}

theorem shown?_congr (h : d'.file? path = d.file? path) : d'.shown? path = d.shown? path := by
  rw [shown?, shown?, h]

theorem read_eq_shown? (d : Disk) (path : String) (offset count : Nat) :
    d.read path offset count = match d.shown? path with
      | none => .error .notFound
      | some (bytes, endless) => File.read { bytes, endless } offset count := by
  rw [read, shown?]
  cases d.file? path <;> rfl

theorem read_of_shown? (h : d'.shown? path = d.shown? path) (offset count : Nat) :
    d'.read path offset count = d.read path offset count := by
  rw [read_eq_shown?, read_eq_shown?, h]

/-- What is done with a file changes no other. -/
theorem file?_withFile {change : File → Except IoFault File} (h : d.withFile path change = .ok d')
    {p : String} (hp : p ≠ path) : d'.file? p = d.file? p := by
  unfold withFile at h
  cases hf : d.file? path with
  | none =>
    rw [hf] at h
    cases h
  | some f =>
    simp only [hf] at h
    cases hchange : change f with
    | error fault =>
      rw [hchange] at h
      cases h
    | ok f' =>
      rw [hchange] at h
      cases h
      rw [file?_insert, if_neg hp]

end Shown

/-- The file ends, and holds just `count` pages of `size` bytes. -/
def Whole (d : Disk) (path : String) (size count : Nat) : Prop :=
  ∃ f, d.file? path = some f ∧ f.endless = false ∧ f.bytes.length = count * size

namespace Whole

variable {d d' : Disk} {path : String} {size count : Nat}

theorem congr (h : d.Whole path size count) (hshown : d'.shown? path = d.shown? path) :
    d'.Whole path size count := by
  obtain ⟨f, hf, hend, hlength⟩ := h
  rw [shown?, shown?, hf, Option.map_some, Option.map_eq_some_iff] at hshown
  obtain ⟨f', hf', heq⟩ := hshown
  obtain ⟨hbytes, hendless⟩ := Prod.mk.inj heq
  exact ⟨f', hf', hendless.trans hend, hbytes ▸ hlength⟩

theorem size_eq (h : d.Whole path size count) : d.size path = count * size := by
  obtain ⟨f, hf, -, hlength⟩ := h
  rw [Disk.size, hf]
  exact hlength

/-! ## 2. Reading -/

theorem read (h : d.Whole path size count) {n : Nat} (hn : n < count) :
    ∃ image, d.read path (n * size) size = .ok image ∧ image.length = size := by
  obtain ⟨f, hf, -, hlength⟩ := h
  have hin : n * size + size ≤ f.bytes.length := hlength ▸ page_apart hn
  exact ⟨_, (read_of_file? hf _ _).trans (f.read_eq hin), File.length_slice hin⟩

/-- There is nothing behind the last page. -/
theorem read_behind (h : d.Whole path size count) (hsize : 0 < size) {n : Nat} (hn : count ≤ n) :
    d.read path (n * size) size = .error .unexpectedEof := by
  obtain ⟨f, hf, hend, hlength⟩ := h
  have hle := Nat.mul_le_mul_right size hn
  exact (read_of_file? hf _ _).trans (f.read_behind hend hsize (by omega))

/-! ## 3. Writing and cutting -/

/-- **A page is written to any place.**  It reads back, other pages read as they did, and a page that
has come to lie in between reads as zeros; other files stay as they are. -/
theorem write (h : d.Whole path size count) (hsize : 0 < size) {n : Nat} {image : Bytes}
    (himage : image.length = size) (hw : d.write path (n * size) image = .ok d') :
    d'.Whole path size (max count (n + 1)) ∧ d'.read path (n * size) size = .ok image ∧
      (∀ m, m ≠ n → m < count → d'.read path (m * size) size = d.read path (m * size) size) ∧
      (∀ m, count ≤ m → m < n → d'.read path (m * size) size = .ok (List.replicate size 0)) ∧
      ∀ p, p ≠ path → d'.file? p = d.file? p := by
  have hne : image ≠ [] := by
    rintro rfl
    exact Nat.ne_of_lt hsize himage
  obtain ⟨g, hg, hend, hlength⟩ := h
  obtain ⟨f, hf, hfull, rfl⟩ := exists_of_write hne hw
  obtain rfl : f = g := Option.some.inj (hf.symm.trans hg)
  have hf' := file?_insert d path path { f with bytes := File.overwritten f.bytes (n * size) image }
  rw [if_pos rfl] at hf'
  have hlen := File.length_overwritten f.bytes (n * size) image
  rw [himage, hlength, ← Nat.succ_mul, Nat.mul_max_mul_right] at hlen
  refine ⟨⟨_, hf', hend, hlen⟩, ?_, ?_, ?_, ?_⟩
  · have hin : n * size + size ≤ (File.overwritten f.bytes (n * size) image).length := by
      rw [hlen]
      exact page_apart (by omega)
    rw [read_of_file? hf', File.read_eq _ hin]
    simp only [← himage, File.slice_overwritten_self]
  · intro m hm hcount
    have hold : m * size + size ≤ f.bytes.length := hlength ▸ page_apart hcount
    have hin : m * size + size ≤ (File.overwritten f.bytes (n * size) image).length := by
      rw [hlen]
      exact page_apart (by omega)
    have haway : m * size + size ≤ n * size ∨ n * size + image.length ≤ m * size := by
      rw [himage]
      rcases Nat.lt_or_gt_of_ne hm with hmn | hmn
      · exact Or.inl (page_apart hmn)
      · exact Or.inr (page_apart hmn)
    rw [read_of_file? hf', read_of_file? hf, File.read_eq _ hin, File.read_eq _ hold]
    exact congrArg Except.ok (File.slice_overwritten _ _ _ hold haway)
  · intro m hcount hm
    have hin : m * size + size ≤ (File.overwritten f.bytes (n * size) image).length := by
      rw [hlen]
      exact page_apart (by omega)
    have hgap : f.bytes.length ≤ m * size := hlength ▸ Nat.mul_le_mul_right size hcount
    rw [read_of_file? hf', File.read_eq _ hin]
    exact congrArg Except.ok (File.slice_gap image hgap (page_apart hm))
  · intro p hp
    rw [file?_insert, if_neg hp]

/-- **The file is cut** in front of a page, and those in front of it read as they did. -/
theorem cut (h : d.Whole path size count) {n : Nat} (hn : n ≤ count) :
    ∃ d', d.resize path (n * size) = .ok d' ∧ d'.Whole path size n ∧
      (∀ m < n, d'.read path (m * size) size = d.read path (m * size) size) ∧
      ∀ p, p ≠ path → d'.file? p = d.file? p := by
  obtain ⟨f, hf, hend, hlength⟩ := h
  have hrun : d.resize path (n * size) =
      .ok ⟨d.files.insert path { f with bytes := File.fitted f.bytes (n * size) }⟩ := by
    simp only [resize, withFile, hf, File.resize, hend, Bool.false_eq_true, if_false]
    rfl
  have hf' := file?_insert d path path { f with bytes := File.fitted f.bytes (n * size) }
  rw [if_pos rfl] at hf'
  have hlen := File.length_fitted f.bytes (n * size)
  refine ⟨_, hrun, ⟨_, hf', hend, hlen⟩, ?_, ?_⟩
  · intro m hm
    have hin : m * size + size ≤ (File.fitted f.bytes (n * size)).length := by
      rw [hlen]
      exact page_apart hm
    have hold : m * size + size ≤ f.bytes.length :=
      hlength ▸ page_apart (Nat.lt_of_lt_of_le hm hn)
    have hcut : m * size + size ≤ n * size := page_apart hm
    rw [read_of_file? hf', read_of_file? hf, File.read_eq _ hin, File.read_eq _ hold]
    refine congrArg Except.ok (List.ext_getElem? fun i => ?_)
    simp only [File.getElem?_slice, File.getElem?_fitted]
    by_cases hi : i < size
    · rw [if_pos hi, if_pos hi, if_pos (by omega), List.getElem?_eq_getElem (by omega),
        Option.getD_some]
    · rw [if_neg hi, if_neg hi]
  · intro p hp
    rw [file?_insert, if_neg hp]

end Whole

end Disk
end RowStore
