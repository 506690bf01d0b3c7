/-
# The order of texts in a histogram

A histogram of texts counts the numbers that the texts are spelled as.  One byte in front weighs more
than all the bytes behind it together (`spell_lt`), and a byte that a text does not have weighs
nothing.  So the numbers ascend with the texts (`spell_mono`), and cutting them off at the last one
keeps that (`key_le_of_isLE`).

Numbers ascend weakly: two texts that begin with the same four bytes have one number, and so have the
texts from the last one on.  What two buckets tell of the order of texts is therefore read from the
buckets to the texts (`Counted.lt_of_bucketOf_lt`), not the other way round.  The result is
`follows_order`.
-/
import RowStore.Histogram.Texts
import RowStore.Proofs.Histogram.Counting

namespace RowStore

namespace TextHistogram

/-! ## 1. Numbers that bytes spell -/

theorem spell_nil (places : Nat) : spell places [] = 0 := by
  induction places with
  | zero => rfl
  | succ places ih =>
    change 0 * 256 ^ places + spell places [] = 0
    rw [ih, Nat.zero_mul]

theorem spell_cons (places : Nat) (byte : UInt8) (bytes : Bytes) :
    spell (places + 1) (byte :: bytes) = byte.toNat * 256 ^ places + spell places bytes := rfl

/-- All the bytes from a place on weigh less than a single one in front of it. -/
theorem spell_lt (places : Nat) (bytes : Bytes) : spell places bytes < 256 ^ places := by
  induction places generalizing bytes with
  | zero => exact Nat.one_pos
  | succ places ih =>
    cases bytes with
    | nil =>
      rw [spell_nil]
      exact Nat.pow_pos (by decide)
    | cons byte bytes =>
      have hbyte : byte.toNat + 1 ≤ 256 := byte.toNat_lt
      calc spell (places + 1) (byte :: bytes)
        _ < byte.toNat * 256 ^ places + 256 ^ places := Nat.add_lt_add_left (ih bytes) _
        _ = (byte.toNat + 1) * 256 ^ places := (Nat.succ_mul _ _).symm
        _ ≤ 256 * 256 ^ places := Nat.mul_le_mul_right _ hbyte
        _ = 256 ^ (places + 1) := (Nat.pow_succ').symm

/-- **What bytes spell** ascends with them.  The first place where they differ decides; where one of
them ends before that, the other has something where it has nothing. -/
theorem spell_mono (places : Nat) {a b : Bytes} (hle : (compare a b).isLE) :
    spell places a ≤ spell places b := by
  induction places generalizing a b with
  | zero => exact Nat.le_refl _
  | succ places ih =>
    cases a with
    | nil =>
      rw [spell_nil]
      exact Nat.zero_le _
    | cons x a =>
      cases b with
      | nil => cases hle
      | cons y b =>
        rw [List.compare_cons_cons] at hle
        rw [spell_cons, spell_cons]
        cases hfirst : compare x y with
        | lt =>
          have hxy : x.toNat + 1 ≤ y.toNat := Std.compare_eq_lt.mp hfirst
          have hweight := Nat.mul_le_mul_right (256 ^ places) hxy
          have hrest := spell_lt places a
          rw [Nat.succ_mul] at hweight
          omega
        | eq =>
          rw [hfirst] at hle
          obtain rfl : x = y := Std.compare_eq_iff_eq.mp hfirst
          exact Nat.add_le_add_left (ih hle) _
        | gt =>
          rw [hfirst] at hle
          cases hle

/-! ## 2. Keys -/

variable {s t : String}

theorem lastKey_eq : lastKey = 0x7A7A7A7A := by decide

/-- The keys are numbers from 0 to the last key. -/
theorem key_le_lastKey (s : String) : key s ≤ lastKey := Nat.min_le_right _ _

/-- A key is also a word of thirty-two bits with a sign. -/
theorem toInt_key (s : String) : (Int32.ofNat (key s)).toInt = key s := by
  have hle := key_le_lastKey s
  rw [lastKey_eq] at hle
  exact Int32.toInt_ofNat_of_lt (by omega)

/-- **Keys ascend with the texts.** -/
theorem key_le_of_isLE (hle : (compare (Utf8.encode s) (Utf8.encode t)).isLE) : key s ≤ key t := by
  have hraw : rawKey s ≤ rawKey t := spell_mono 4 hle
  rw [key, key]
  omega

/-- Texts with different keys are ordered as the keys are. -/
theorem lt_of_key_lt (hlt : key s < key t) : compare (Utf8.encode s) (Utf8.encode t) = .lt := by
  refine Std.OrientedCmp.lt_of_not_isLE fun hle => ?_
  exact Nat.not_le.mpr hlt (key_le_of_isLE hle)

/-! ## 3. Texts, counted -/

def addAll (h : TextHistogram) (texts : List String) : TextHistogram := texts.foldl add h

/-- The bucket that a text falls into. -/
def bucketOf (h : TextHistogram) (text : String) : Nat := h.keys.bucketOf (key text)

/-- To add texts is to add their keys. -/
theorem keys_addAll (h : TextHistogram) (texts : List String) :
    (h.addAll texts).keys = h.keys.addAll (texts.map fun s => (key s : Int)) := by
  induction texts generalizing h with
  | nil => rfl
  | cons s texts ih => exact ih (h.add s)

theorem size_addAll (h : TextHistogram) (texts : List String) :
    (h.addAll texts).keys.counts.size = h.keys.counts.size := by
  rw [keys_addAll]
  exact (NumberHistogram.shape_addAll h.keys _).2.2.2

/-- The texts have been counted by their keys, over the range of all keys. -/
structure Counted (h : TextHistogram) (texts : List String) : Prop where
  least : h.keys.least = 0
  greatest : h.keys.greatest = lastKey
  keys : h.keys.Counted (texts.map fun s => (key s : Int))

theorem make_eq_ok_iff {buckets : Nat} {h : TextHistogram} :
    make buckets = .ok h ↔ NumberHistogram.make buckets 0 lastKey = .ok h.keys := by
  change (NumberHistogram.make buckets 0 lastKey).map mk = .ok h ↔ _
  cases NumberHistogram.make buckets 0 lastKey with
  | error e => simp only [Except.map, reduceCtorEq]
  | ok keys =>
    obtain ⟨keys'⟩ := h
    simp only [Except.map, Except.ok.injEq, mk.injEq]

theorem exists_make {buckets : Nat} (hsome : 0 < buckets) :
    ∃ h, make buckets = .ok h ∧ h.keys.counts.size = buckets := by
  obtain ⟨keys, hmake, -, -, hsize⟩ :=
    NumberHistogram.exists_make hsome (Int.natCast_nonneg lastKey)
  exact ⟨⟨keys⟩, make_eq_ok_iff.mpr hmake, hsize⟩

theorem counted_addAll {buckets : Nat} {h₀ : TextHistogram} (hmake : make buckets = .ok h₀)
    (texts : List String) : (h₀.addAll texts).Counted texts := by
  have hkeys := make_eq_ok_iff.mp hmake
  obtain ⟨hleast, hgreatest, -, -⟩ :=
    NumberHistogram.shape_addAll h₀.keys (texts.map fun s => (key s : Int))
  obtain ⟨-, -, hshape⟩ := NumberHistogram.make_eq_ok_iff.mp hkeys
  rw [hshape] at hleast hgreatest
  constructor
  · rw [keys_addAll, hshape, hleast]
  · rw [keys_addAll, hshape, hgreatest]
  · rw [keys_addAll]
    exact NumberHistogram.counted_addAll hkeys _

/-! ## 4. What the buckets tell -/

/-- The buckets of a histogram follow the order of the texts. -/
structure Follows (h : TextHistogram) (texts : List String) : Prop where
  /-- No text is counted as an end of the range in place of its own key. -/
  nearest : ∀ s, h.keys.nearest (key s) = key s
  /-- A bucket counts the texts that fall into it. -/
  count : ∀ b, h.keys.count b = texts.countP fun s => h.bucketOf s = b
  /-- What is counted in front of the bucket of a text, is less than the text. -/
  front : ∀ s, ∀ x ∈ texts, h.bucketOf x < h.bucketOf s →
    compare (Utf8.encode x) (Utf8.encode s) = .lt
  /-- What is counted behind it, is greater. -/
  behind : ∀ s, ∀ x ∈ texts, h.bucketOf s < h.bucketOf x →
    compare (Utf8.encode x) (Utf8.encode s) = .gt

namespace Counted

variable {h : TextHistogram} {texts : List String} (hc : h.Counted texts)
include hc

/-- Every key is a number of the range. -/
theorem spans_key (s : String) : h.keys.Spans (key s) := by
  have hle := key_le_lastKey s
  rw [NumberHistogram.Spans, hc.least, hc.greatest]
  omega

theorem count (b : Nat) : h.keys.count b = texts.countP fun s => h.bucketOf s = b := by
  rw [hc.keys.count, List.countP_map]
  refine List.countP_congr fun s _ => ?_
  rw [Function.comp_apply, NumberHistogram.bucketFor,
    NumberHistogram.nearest_eq (hc.spans_key s), bucketOf]

/-- A text that falls into a bucket in front of another one's is in front of it. -/
theorem lt_of_bucketOf_lt (hlt : h.bucketOf s < h.bucketOf t) :
    compare (Utf8.encode s) (Utf8.encode t) = .lt := by
  refine lt_of_key_lt (Nat.not_le.mp fun hle => Nat.not_le.mpr hlt ?_)
  exact hc.keys.regular.bucketOf_mono (hc.spans_key t) (hc.spans_key s) (Int.ofNat_le.mpr hle)

/-- **The buckets follow the texts.** -/
theorem follows : h.Follows texts where
  nearest s := NumberHistogram.nearest_eq (hc.spans_key s)
  count := hc.count
  front _ _ _ := hc.lt_of_bucketOf_lt
  behind _ _ _ hlt := Std.OrientedCmp.gt_iff_lt.mpr (hc.lt_of_bucketOf_lt hlt)

/-- The keys are worked out in words that are never too small. -/
theorem exact (hfew : h.keys.counts.size < 2 ^ 62) : h.keys.Exact := by
  refine hc.keys.regular.exact ⟨?_, ?_, hfew⟩
  · rw [hc.least]
    decide
  · rw [hc.greatest, lastKey_eq]
    decide

end Counted

/-! ## 5. The result -/

/-- **The order of texts.**  The key of a text lies between 0 and the key of `zzzz`, it is a word of
thirty-two bits with a sign, and a text that stands in front of another has no greater key.  So a
histogram of any number of buckets but none follows the order of the texts, whatever texts have been
added; and with fewer than `2 ^ 62` buckets the words that it is worked out in are never too small. -/
theorem follows_order {buckets : Nat} (hsome : 0 < buckets) (texts : List String) :
    (∀ s, key s ≤ key "zzzz" ∧ (Int32.ofNat (key s)).toInt = key s) ∧
    (∀ s t, compare (Utf8.encode s) (Utf8.encode t) = .lt → key s ≤ key t) ∧
    ∃ h, (make buckets).map (·.addAll texts) = .ok h ∧ h.keys.counts.size = buckets ∧
      h.keys.least = 0 ∧ h.keys.greatest = key "zzzz" ∧ h.keys.total = texts.length ∧
      (buckets < 2 ^ 62 → h.keys.Exact) ∧ h.Follows texts := by
  have hlast : key "zzzz" = lastKey := Nat.min_self _
  obtain ⟨h₀, hmake, hsize⟩ := exists_make hsome
  have hc := counted_addAll hmake texts
  have hsize' : (h₀.addAll texts).keys.counts.size = buckets := (size_addAll h₀ texts).trans hsize
  rw [hlast]
  refine ⟨fun s => ⟨key_le_lastKey s, toInt_key s⟩, ?_, _, congrArg _ hmake, hsize', hc.least,
    hc.greatest, ?_, ?_, hc.follows⟩
  · intro s t hlt
    refine key_le_of_isLE ?_
    rw [hlt]
    rfl
  · rw [hc.keys.total, List.length_map]
  · intro hfew
    exact hc.exact (hsize' ▸ hfew)

/-- A text that ends and one that goes on with a zero byte have one key, and so have all the texts
behind `zzzz`. -/
theorem follows_order_ties : 0 < 8 ∧
    (∀ s, key s ≤ key "zzzz" ∧ (Int32.ofNat (key s)).toInt = key s) ∧
    (∀ s t, compare (Utf8.encode s) (Utf8.encode t) = .lt → key s ≤ key t) ∧
    ∃ h, (make 8).map (·.addAll ["", "0\x00", "0", "Az", "zzzz", "zzzzz", "日本"]) = .ok h ∧
      h.keys.counts = #[1, 0, 0, 2, 1, 0, 0, 3] ∧ h.keys.counts.size = 8 ∧
      h.keys.least = 0 ∧ h.keys.greatest = key "zzzz" ∧ h.keys.total = 7 ∧
      (8 < 2 ^ 62 → h.keys.Exact) ∧
      h.Follows ["", "0\x00", "0", "Az", "zzzz", "zzzzz", "日本"] := by
  have hsome : 0 < 8 := by decide
  obtain ⟨hkeys, hmono, h, hmade, hall⟩ :=
    follows_order hsome ["", "0\x00", "0", "Az", "zzzz", "zzzzz", "日本"]
  have hrun : (make 8).map (·.addAll ["", "0\x00", "0", "Az", "zzzz", "zzzzz", "日本"]) =
      .ok ⟨⟨0, 0x7A7A7A7A, 256855888, #[1, 0, 0, 2, 1, 0, 0, 3], 7⟩⟩ := by decide +kernel
  have hcounts : h.keys.counts = #[1, 0, 0, 2, 1, 0, 0, 3] := by
    rw [hrun, Except.ok.injEq] at hmade
    rw [← hmade]
  exact ⟨hsome, hkeys, hmono, h, hmade, hcounts, hall⟩

end TextHistogram
end RowStore
