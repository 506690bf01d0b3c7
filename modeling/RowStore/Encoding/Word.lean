/-
# Thirty-two bit words as bytes

Numbers and lengths are stored as four bytes, least significant first.  `Word.encode`
writes a word, `Word.read` takes one from the front of a buffer and hands back the rest.

* `Word.read_encode`: a written word reads back, whatever follows it;
* `Word.encode_of_read`: four bytes are the writing of the word they read as, so the two
  directions are inverse to each other.
-/

namespace RowStore

/-- A run of bytes: a field, a page image or the contents of a file. -/
abbrev Bytes := List UInt8

namespace Word

/-- The four bytes of a word, least significant first. -/
def encode (w : UInt32) : Bytes :=
  let n := w.toNat
  [UInt8.ofNat n, UInt8.ofNat (n / 256), UInt8.ofNat (n / 65536), UInt8.ofNat (n / 16777216)]

/-- The word that four bytes stand for. -/
def ofBytes (a b c d : UInt8) : UInt32 :=
  UInt32.ofNat (a.toNat + 256 * b.toNat + 65536 * c.toNat + 16777216 * d.toNat)

/-- Takes a word from the front of a buffer; `none` if fewer than four bytes are left. -/
def read : Bytes → Option (UInt32 × Bytes)
  | a :: b :: c :: d :: rest => some (ofBytes a b c d, rest)
  | _ => none

@[simp] theorem length_encode (w : UInt32) : (encode w).length = 4 := rfl

theorem ofBytes_encode (w : UInt32) :
    ofBytes (UInt8.ofNat w.toNat) (UInt8.ofNat (w.toNat / 256))
      (UInt8.ofNat (w.toNat / 65536)) (UInt8.ofNat (w.toNat / 16777216)) = w := by
  apply UInt32.toNat_inj.mp
  have hw : w.toNat < 4294967296 := w.toNat_lt
  simp only [ofBytes, UInt32.toNat_ofNat', UInt8.toNat_ofNat']
  omega

theorem read_encode (w : UInt32) (rest : Bytes) : read (encode w ++ rest) = some (w, rest) := by
  simp only [encode, List.cons_append, List.nil_append, read, ofBytes_encode]

theorem encode_ofBytes (a b c d : UInt8) : encode (ofBytes a b c d) = [a, b, c, d] := by
  have ha : a.toNat < 256 := a.toNat_lt
  have hb : b.toNat < 256 := b.toNat_lt
  have hc : c.toNat < 256 := c.toNat_lt
  have hd : d.toNat < 256 := d.toNat_lt
  simp only [encode, ofBytes, UInt32.toNat_ofNat', List.cons.injEq, and_true]
  refine ⟨?_, ?_, ?_, ?_⟩ <;> apply UInt8.toNat_inj.mp <;>
    simp only [UInt8.toNat_ofNat'] <;> omega

theorem encode_of_read {bytes rest : Bytes} {w : UInt32} (h : read bytes = some (w, rest)) :
    bytes = encode w ++ rest := by
  match bytes, h with
  | a :: b :: c :: d :: r, h =>
    simp only [read, Option.some.injEq, Prod.mk.injEq] at h
    obtain ⟨rfl, rfl⟩ := h
    simp [encode_ofBytes]

/-- Reading fails exactly on fewer than four bytes. -/
theorem read_eq_none_iff {bytes : Bytes} : read bytes = none ↔ bytes.length < 4 := by
  match bytes with
  | [] | [_] | [_, _] | [_, _, _] => simp [read]
  | _ :: _ :: _ :: _ :: r => simp [read]

end Word
end RowStore
