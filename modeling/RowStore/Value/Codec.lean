/-
# Values as bytes

A number is stored as one word.  A text is stored as its length, its bytes and as many zero
bytes as its column has left, so every value of a column takes the column's width.

Reading consumes what it has looked at.  From a buffer shorter than the column it takes
nothing; a length that exceeds the column costs the four bytes of the length; a text that is
not well formed costs the whole column.

* `Value.length_encode`: a written value takes the column's width;
* `Value.read_encode`: a written value reads back, whatever follows it;
* `Value.fits_of_read`: only values that fit the column are read.
-/
import RowStore.Value

namespace RowStore
namespace Value

/-! ## 1. Writing -/

/-- The bytes of a value in a column of the type; `none` if it does not fit there. -/
def encode? : Value → DataType → Option Bytes
  | int n, .int => some (Word.encode n.toUInt32)
  | text s, .text limit =>
    if Utf8.size s ≤ limit.toNat then
      some (Word.encode (UInt32.ofNat (Utf8.size s)) ++ Utf8.encode s ++
        List.replicate (limit.toNat - Utf8.size s) 0)
    else none
  | _, _ => none

theorem isSome_encode? (v : Value) (t : DataType) : (v.encode? t).isSome = v.fits t := by
  cases v <;> cases t <;> simp only [encode?, fits, Option.isSome_some, Option.isSome_none]
  split <;> simp_all

theorem length_encode {v : Value} {t : DataType} {bytes : Bytes} (h : v.encode? t = some bytes) :
    bytes.length = t.width := by
  cases v with
  | int n =>
    cases t with
    | int => simp only [encode?, Option.some.injEq] at h; subst h; rfl
    | text limit => simp [encode?] at h
  | text s =>
    cases t with
    | int => simp [encode?] at h
    | text limit =>
      simp only [encode?, Option.ite_none_right_eq_some, Option.some.injEq] at h
      obtain ⟨hs, rfl⟩ := h
      simp only [List.length_append, Word.length_encode, Utf8.length_encode,
        List.length_replicate, DataType.width]
      omega

/-! ## 2. Reading -/

/-- Reads a value of the type from the front of a buffer; second, what is left of it. -/
def read (t : DataType) (buffer : Bytes) : Option Value × Bytes :=
  if buffer.length < t.width then (none, buffer)
  else match t, Word.read buffer with
    | .int, some (w, rest) => (some (int w.toInt32), rest)
    | .text limit, some (w, rest) =>
      if limit.toNat < w.toNat then (none, rest)
      else ((Utf8.decode? (rest.take w.toNat)).map text, rest.drop limit.toNat)
    | _, none => (none, buffer)

theorem read_encode {v : Value} {t : DataType} {bytes : Bytes} (h : v.encode? t = some bytes)
    (rest : Bytes) : read t (bytes ++ rest) = (some v, rest) := by
  have hlen := length_encode h
  have hge : ¬ (bytes ++ rest).length < t.width := by simp [hlen]
  cases v with
  | int n =>
    cases t with
    | text limit => simp [encode?] at h
    | int =>
      simp only [encode?, Option.some.injEq] at h
      subst h
      simp only [read, if_neg hge, Word.read_encode, Prod.mk.injEq, Option.some.injEq,
        int.injEq, and_true]
      simp
  | text s =>
    cases t with
    | int => simp [encode?] at h
    | text limit =>
      simp only [encode?, Option.ite_none_right_eq_some, Option.some.injEq] at h
      obtain ⟨hs, rfl⟩ := h
      have hlim : limit.toNat < 65536 := limit.toNat_lt
      have hw : (UInt32.ofNat (Utf8.size s)).toNat = Utf8.size s := by
        rw [UInt32.toNat_ofNat']; omega
      have hsz : (Utf8.encode s).length = Utf8.size s := Utf8.length_encode s
      have hbody : (Utf8.encode s ++ List.replicate (limit.toNat - Utf8.size s) 0).length
          = limit.toNat := by
        simp only [List.length_append, List.length_replicate, hsz]; omega
      simp only [read, if_neg hge]
      rw [List.append_assoc, List.append_assoc, Word.read_encode]
      simp only [hw, if_neg (Nat.not_lt.mpr hs)]
      have htake : (Utf8.encode s ++ (List.replicate (limit.toNat - Utf8.size s) 0 ++ rest)).take
          (Utf8.size s) = Utf8.encode s := by rw [← hsz, List.take_left]
      have hdrop : (Utf8.encode s ++ (List.replicate (limit.toNat - Utf8.size s) 0 ++ rest)).drop
          limit.toNat = rest := by rw [← List.append_assoc, List.drop_left' hbody]
      rw [htake, hdrop, Utf8.decode_encode]
      rfl

theorem fits_of_read {t : DataType} {buffer rest : Bytes} {v : Value}
    (h : read t buffer = (some v, rest)) : v.fits t := by
  unfold read at h
  split at h
  · simp at h
  · rename_i hlen
    split at h
    · simp only [Prod.mk.injEq, Option.some.injEq] at h
      rw [← h.1]; rfl
    · rename_i limit w tail _
      split at h
      · simp at h
      · rename_i hw
        simp only [Prod.mk.injEq, Option.map_eq_some_iff] at h
        obtain ⟨⟨s, hs, rfl⟩, _⟩ := h
        have := Utf8.length_encode s
        rw [Utf8.encode_of_decode hs, List.length_take] at this
        simp only [fits, decide_eq_true_eq]
        omega
    · simp at h

end Value
end RowStore
