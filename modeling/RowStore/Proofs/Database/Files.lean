/-
# Pages in files

A file of pages is read and written at multiples of the page size.  `PageFile` says that a file is
an ordinary one and how many whole pages it has; under it a page within the file can be read
(`PageFile.read`), one behind it cannot (`PageFile.read_behind`), and a page written into the file
or right behind it is the only thing that changes (`PageFile.write`).
-/
import RowStore.Disk
import Mathlib.Tactic.Common

namespace RowStore

/-! ## 1. Bytes -/

namespace File

theorem getElem?_fitted (bytes : Bytes) (length i : Nat) :
    (fitted bytes length)[i]? = if i < length then some (bytes[i]?.getD 0) else none := by
  simp only [fitted, List.getElem?_append, List.length_take, List.getElem?_take,
    List.getElem?_replicate]
  by_cases hi : i < length
  · by_cases hb : i < bytes.length
    · rw [if_pos (by omega), if_pos hi, if_pos hi, List.getElem?_eq_getElem hb, Option.getD_some]
    · rw [if_neg (by omega), if_pos (by omega), if_pos hi, List.getElem?_eq_none (by omega),
        Option.getD_none]
  · rw [if_neg (by omega), if_neg (by omega), if_neg hi]

theorem length_fitted (bytes : Bytes) (length : Nat) : (fitted bytes length).length = length := by
  simp only [fitted, List.length_append, List.length_take, List.length_replicate]
  omega

/-- The bytes of a file behind a write. -/
def overwritten (bytes : Bytes) (offset : Nat) (data : Bytes) : Bytes :=
  fitted bytes offset ++ data ++ bytes.drop (offset + data.length)

theorem length_overwritten (bytes : Bytes) (offset : Nat) (data : Bytes) :
    (overwritten bytes offset data).length = max bytes.length (offset + data.length) := by
  simp only [overwritten, List.length_append, length_fitted, List.length_drop]
  omega

/-- A write puts its data at its place, fills a gap in front of them with zeros, and leaves every
other byte. -/
theorem getElem?_overwritten (bytes : Bytes) (offset : Nat) (data : Bytes) (i : Nat) :
    (overwritten bytes offset data)[i]? =
      if i < offset then some (bytes[i]?.getD 0)
      else if i < offset + data.length then data[i - offset]?
      else bytes[i]? := by
  simp only [overwritten, List.getElem?_append, List.length_append, length_fitted,
    getElem?_fitted, List.getElem?_drop]
  by_cases hi : i < offset
  · simp only [if_pos hi, if_pos (show i < offset + data.length by omega)]
  · by_cases hd : i < offset + data.length
    · simp only [if_pos hd, if_neg hi]
    · have hback : offset + data.length + (i - (offset + data.length)) = i := by omega
      simp only [if_neg hd, if_neg hi, hback]

/-- `count` bytes from `offset` on. -/
def slice (bytes : Bytes) (offset count : Nat) : Bytes := (bytes.drop offset).take count

theorem getElem?_slice (bytes : Bytes) (offset count i : Nat) :
    (slice bytes offset count)[i]? = if i < count then bytes[offset + i]? else none := by
  rw [slice, List.getElem?_take, List.getElem?_drop]

theorem slice_overwritten_self (bytes : Bytes) (offset : Nat) (data : Bytes) :
    slice (overwritten bytes offset data) offset data.length = data := by
  refine List.ext_getElem? fun i => ?_
  rw [getElem?_slice, getElem?_overwritten]
  by_cases hi : i < data.length
  · rw [if_pos hi, if_neg (by omega), if_pos (by omega), Nat.add_sub_cancel_left]
  · rw [if_neg hi, List.getElem?_eq_none (by omega)]

/-- A slice of the file that the write does not touch. -/
theorem slice_overwritten (bytes : Bytes) (offset : Nat) (data : Bytes) {start count : Nat}
    (hin : start + count ≤ bytes.length)
    (haway : start + count ≤ offset ∨ offset + data.length ≤ start) :
    slice (overwritten bytes offset data) start count = slice bytes start count := by
  refine List.ext_getElem? fun i => ?_
  rw [getElem?_slice, getElem?_slice, getElem?_overwritten]
  by_cases hi : i < count
  · rw [if_pos hi, if_pos hi]
    rcases haway with haway | haway
    · rw [if_pos (by omega), List.getElem?_eq_getElem (by omega), Option.getD_some]
    · rw [if_neg (by omega), if_neg (by omega)]
  · rw [if_neg hi, if_neg hi]

theorem length_slice {bytes : Bytes} {offset count : Nat} (h : offset + count ≤ bytes.length) :
    (slice bytes offset count).length = count := by
  rw [slice, List.length_take, List.length_drop]
  omega

theorem read_eq (f : File) {offset count : Nat} (h : offset + count ≤ f.bytes.length) :
    f.read offset count = .ok (slice f.bytes offset count) :=
  if_pos (length_slice h)

theorem read_behind (f : File) {offset count : Nat} (hendless : f.endless = false)
    (hcount : 0 < count) (h : f.bytes.length < offset + count) :
    f.read offset count = .error .unexpectedEof := by
  have hshort : ¬ ((f.bytes.drop offset).take count).length = count := by
    rw [List.length_take, List.length_drop]
    omega
  simp only [read, if_neg hshort, hendless, Bool.false_eq_true, if_false]

theorem write_eq (f : File) (offset : Nat) {data : Bytes} (hfull : f.full = false)
    (hdata : data ≠ []) :
    f.write offset data = .ok { f with bytes := overwritten f.bytes offset data } := by
  have hne : ¬ data.isEmpty = true := by rwa [List.isEmpty_iff]
  simp only [write, if_neg hne, hfull, Bool.false_eq_true, if_false, overwritten]

end File

/-! ## 2. Disks -/

namespace Disk

theorem file?_insert (d : Disk) (path p : String) (f : File) :
    (⟨d.files.insert path f⟩ : Disk).file? p = if p = path then some f else d.file? p := by
  simp only [file?, Std.TreeMap.getElem?_insert, Std.compare_eq_iff_eq, @eq_comm _ path p]

theorem read_of_file? {d : Disk} {path : String} {f : File} (h : d.file? path = some f)
    (offset count : Nat) : d.read path offset count = f.read offset count := by
  rw [read, h]

theorem write_of_file? {d : Disk} {path : String} {f f' : File} (h : d.file? path = some f)
    {offset : Nat} {data : Bytes} (hw : f.write offset data = .ok f') :
    d.write path offset data = .ok ⟨d.files.insert path f'⟩ := by
  simp only [write, withFile, h, hw]
  rfl

/-- The path is that of an ordinary file, which has `count` whole pages of `size` bytes. -/
def PageFile (d : Disk) (path : String) (size count : Nat) : Prop :=
  ∃ f, d.file? path = some f ∧ f.full = false ∧ f.endless = false ∧
    count * size ≤ f.bytes.length ∧ f.bytes.length < (count + 1) * size

namespace PageFile

variable {d : Disk} {path : String} {size count : Nat}

theorem size_pos (h : d.PageFile path size count) : 0 < size := by
  obtain ⟨f, -, -, -, hle, hlt⟩ := h
  rw [Nat.succ_mul] at hlt
  omega

/-- A page of the file can be read. -/
theorem read (h : d.PageFile path size count) {n : Nat} (hn : n < count) :
    ∃ image, d.read path (n * size) size = .ok image ∧ image.length = size := by
  obtain ⟨f, hf, -, -, hle, -⟩ := h
  have hin : n * size + size ≤ f.bytes.length := by
    have := Nat.mul_le_mul_right size hn
    rw [Nat.succ_mul] at this
    omega
  exact ⟨_, (read_of_file? hf _ _).trans (f.read_eq hin), File.length_slice hin⟩

/-- A page behind the file cannot be read. -/
theorem read_behind (h : d.PageFile path size count) {n : Nat} (hn : count ≤ n) :
    d.read path (n * size) size = .error .unexpectedEof := by
  have hsize := h.size_pos
  obtain ⟨f, hf, -, hendless, -, hlt⟩ := h
  have hle := Nat.mul_le_mul_right size hn
  rw [Nat.succ_mul] at hlt
  exact (read_of_file? hf _ _).trans (f.read_behind hendless hsize (by omega))

/-- **A page is written into the file or right behind it.**  It reads back, every other page reads
as before or is missing as before, and every other file stays as it is. -/
theorem write (h : d.PageFile path size count) {n : Nat} (hn : n ≤ count) {image : Bytes}
    (himage : image.length = size) :
    ∃ d', d.write path (n * size) image = .ok d' ∧ d'.PageFile path size (max count (n + 1)) ∧
      d'.read path (n * size) size = .ok image ∧
      (∀ m, m ≠ n → d'.read path (m * size) size = d.read path (m * size) size) ∧
      ∀ p, p ≠ path → d'.file? p = d.file? p := by
  have hsize := h.size_pos
  have hfile := h
  obtain ⟨f, hf, hfull, hendless, hle, hlt⟩ := h
  have hne : image ≠ [] := by
    rintro rfl
    exact Nat.ne_of_lt hsize himage
  have hlen := File.length_overwritten f.bytes (n * size) image
  rw [himage] at hlen
  have hnle := Nat.mul_le_mul_right size hn
  have hdisk := write_of_file? hf (f.write_eq (n * size) hfull hne)
  have hf' := file?_insert d path path { f with bytes := File.overwritten f.bytes (n * size) image }
  rw [if_pos rfl] at hf'
  have hcount : PageFile ⟨d.files.insert path
      { f with bytes := File.overwritten f.bytes (n * size) image }⟩ path size
        (max count (n + 1)) := by
    refine ⟨_, hf', hfull, hendless, ?_⟩
    simp only [hlen]
    rcases Nat.lt_or_ge n count with hin | hbehind
    · have := Nat.mul_le_mul_right size hin
      rw [Nat.succ_mul] at this
      rw [Nat.max_eq_left hin]
      omega
    · obtain rfl : n = count := Nat.le_antisymm hn hbehind
      rw [Nat.max_eq_right (Nat.le_add_right n 1)]
      simp only [Nat.add_mul, Nat.one_mul] at hlt ⊢
      omega
  refine ⟨_, hdisk, hcount, ?_, fun m hm => ?_, fun p hp => ?_⟩
  · rw [read_of_file? hf', File.read_eq _ (by simp only [hlen]; omega)]
    simp only [← himage, File.slice_overwritten_self]
  · by_cases hmc : m < count
    -- both files have page `m`, and it is not the one that is written
    · have hmle := Nat.mul_le_mul_right size hmc
      rw [Nat.succ_mul] at hmle
      have haway : m * size + size ≤ n * size ∨ n * size + image.length ≤ m * size := by
        rw [himage]
        rcases Nat.lt_or_gt_of_ne hm with hmn | hmn
        · have := Nat.mul_le_mul_right size hmn
          rw [Nat.succ_mul] at this
          exact Or.inl this
        · have := Nat.mul_le_mul_right size hmn
          rw [Nat.succ_mul] at this
          exact Or.inr this
      rw [read_of_file? hf', read_of_file? hf, File.read_eq _ (by simp only [hlen]; omega),
        File.read_eq _ (by omega)]
      exact congrArg Except.ok (File.slice_overwritten _ _ _ (by omega) haway)
    · rw [hfile.read_behind (Nat.le_of_not_lt hmc), hcount.read_behind (by omega)]
  · rw [file?_insert, if_neg hp]

end PageFile

end Disk
end RowStore
