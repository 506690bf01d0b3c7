/-
# Bitmaps

The bitmap of a page tells which slots are in use.  Bit `i` is in byte `i / 8`, the least
significant bit first.  The last byte may have bits that no slot belongs to; they are kept as
they are.

* `Bitmap.test_put`: writing a bit changes that bit and no other.
-/

namespace RowStore

structure Bitmap where
  bytes : Array UInt8
deriving DecidableEq

namespace Bitmap

/-- A bitmap of `size` bytes with no bit set. -/
def empty (size : Nat) : Bitmap := ⟨Array.replicate size 0⟩

/-- Bit `k` of a byte. -/
def bit (byte : UInt8) (k : Nat) : Bool := byte.toNat.testBit k

/-- The byte with bit `k` written. -/
def putBit (byte : UInt8) (k : Nat) (value : Bool) : UInt8 :=
  if value then byte ||| (1 <<< UInt8.ofNat k) else byte &&& ~~~(1 <<< UInt8.ofNat k)

/-- Bit `i` is set.  A bit behind the end is not. -/
def test (bitmap : Bitmap) (i : Nat) : Bool := bit (bitmap.bytes.getD (i / 8) 0) (i % 8)

/-- The bitmap with bit `i` written; a bit behind the end cannot be. -/
def put (bitmap : Bitmap) (i : Nat) (value : Bool) : Bitmap :=
  ⟨bitmap.bytes.modify (i / 8) (putBit · (i % 8) value)⟩

theorem testBit_mask : ∀ k < 8, ∀ j < 8,
    ((1 : UInt8) <<< UInt8.ofNat k).toNat.testBit j = decide (j = k) := by decide

theorem bit_putBit (byte : UInt8) {k : Nat} (hk : k < 8) (value : Bool) {j : Nat} (hj : j < 8) :
    bit (putBit byte k value) j = if j = k then value else bit byte j := by
  have hm := testBit_mask k hk j hj
  unfold putBit bit
  generalize (1 : UInt8) <<< UInt8.ofNat k = mask at hm ⊢
  have hn : (~~~mask).toNat.testBit j = !decide (j = k) := by
    rw [← hm]
    change (~~~mask).toBitVec.getLsbD j = !mask.toBitVec.getLsbD j
    simp [UInt8.toBitVec_not, hj]
  cases value
  · simp only [Bool.false_eq_true, if_false, UInt8.toNat_and, Nat.testBit_and, hn]
    by_cases h : j = k <;> simp [h]
  · simp only [if_true, UInt8.toNat_or, Nat.testBit_or, hm]
    by_cases h : j = k <;> simp [h]

@[simp] theorem size_put (bitmap : Bitmap) (i : Nat) (value : Bool) :
    (bitmap.put i value).bytes.size = bitmap.bytes.size := by
  simp [put]

theorem test_put (bitmap : Bitmap) {i : Nat} (hi : i / 8 < bitmap.bytes.size) (value : Bool)
    (j : Nat) : (bitmap.put i value).test j = if j = i then value else bitmap.test j := by
  simp only [test, put, Array.getD_eq_getD_getElem?, Array.getElem?_modify]
  by_cases hb : i / 8 = j / 8
  · have hj : j / 8 < bitmap.bytes.size := hb ▸ hi
    simp only [hb, if_true, Array.getElem?_eq_getElem hj, Option.map_some, Option.getD_some]
    rw [bit_putBit _ (Nat.mod_lt _ (by decide)) _ (Nat.mod_lt _ (by decide))]
    by_cases h : j = i
    · simp [h]
    · have : j % 8 ≠ i % 8 := by omega
      simp [h, this]
  · have h : j ≠ i := by rintro rfl; exact hb rfl
    simp [hb, h]

end Bitmap
end RowStore
