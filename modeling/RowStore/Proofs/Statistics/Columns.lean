/-
# Statistics, column by column

Rows come one after another, and what is kept of them is kept for each column.  A column does not
take notice of the others: what is kept of it in the end is what comes of its own values
(`getElem?_foldl_changeEach`).  With that the two passes are about one column at a time.

The first pass finds the range of the column's numbers, which is exact at every step
(`Range.Bounds.add`); the second counts them, and none of them is outside the range.
`exists_histograms` puts the passes together.
-/
import Mathlib.Order.Bounds.Basic
import RowStore.Proofs.Histogram.Texts
import RowStore.Proofs.Stream.Summaries
import RowStore.Statistics

namespace RowStore

/-! ## 1. Columns -/

/-- The values of a column, row by row. -/
def Row.column (rows : List Row) (field : Nat) : List Value := rows.filterMap (·.value? field)

namespace TableStats

section

variable {α : Type} (change : α → Value → α)

theorem length_changeEach (kept : List α) (values : List Value) :
    (changeEach change kept values).length = kept.length := by
  induction kept generalizing values with
  | nil => cases values <;> rfl
  | cons a kept ih =>
    cases values with
    | nil => rfl
    | cons v values => exact congrArg Nat.succ (ih values)

theorem getElem?_changeEach (kept : List α) (values : List Value) (field : Nat) :
    (changeEach change kept values)[field]? =
      kept[field]?.map fun a => (values[field]?.map (change a)).getD a := by
  induction kept generalizing values field with
  | nil => cases values <;> rfl
  | cons a kept ih =>
    cases values with
    | nil =>
      change (a :: kept)[field]? = _
      cases (a :: kept)[field]? <;> rfl
    | cons v values =>
      cases field with
      | zero => rfl
      | succ field => exact ih values field

theorem length_foldl_changeEach (rows : List Row) (kept : List α) :
    (rows.foldl (fun kept row => changeEach change kept row.values) kept).length = kept.length := by
  induction rows generalizing kept with
  | nil => rfl
  | cons row rows ih => exact (ih _).trans (length_changeEach change kept row.values)

/-- **What is kept of a column** comes of the values of the column alone. -/
theorem getElem?_foldl_changeEach (rows : List Row) (kept : List α) (field : Nat) :
    (rows.foldl (fun kept row => changeEach change kept row.values) kept)[field]? =
      kept[field]?.map fun a => (Row.column rows field).foldl change a := by
  induction rows generalizing kept with
  | nil => exact Option.map_id'.symm
  | cons row rows ih =>
    rw [List.foldl_cons, ih, getElem?_changeEach, Option.map_map, Row.column, Row.column,
      List.filterMap_cons, Row.value?]
    cases row.values[field]? <;> rfl

end

end TableStats

/-- The values of a column of a table: as many as there are rows, and all of the column's type. -/
theorem Row.column_fits {schema : Schema} {rows : List Row}
    (hrows : ∀ row ∈ rows, row.schema = schema) {field : Nat} {c : Column}
    (hc : schema.column? field = some c) :
    (Row.column rows field).length = rows.length ∧ ∀ v ∈ Row.column rows field, v.fits c.type := by
  induction rows with
  | nil => exact ⟨rfl, fun v hv => by cases hv⟩
  | cons row rows ih =>
    obtain ⟨hlength, hfits⟩ := ih fun r hr => hrows r (List.mem_cons_of_mem _ hr)
    have hrow := row.fits
    rw [hrows row List.mem_cons_self] at hrow
    obtain ⟨v, hv, hfit⟩ := Schema.admits_go_getElem? hrow hc
    have hcolumn : Row.column (row :: rows) field = v :: Row.column rows field := by
      rw [Row.column, List.filterMap_cons, Row.value?, hv]
      rfl
    rw [hcolumn]
    refine ⟨congrArg Nat.succ hlength, fun w hw => ?_⟩
    rcases List.mem_cons.mp hw with rfl | hw
    · exact hfit
    · exact hfits w hw

/-- Values of a column of numbers are numbers. -/
theorem exists_numbers {values : List Value} (h : ∀ v ∈ values, v.fits .int) :
    ∃ numbers : List Int32, values = numbers.map Value.int := by
  induction values with
  | nil => exact ⟨[], rfl⟩
  | cons v values ih =>
    obtain ⟨numbers, rfl⟩ := ih fun w hw => h w (List.mem_cons_of_mem _ hw)
    have hv := h v List.mem_cons_self
    cases v with
    | int n => exact ⟨n :: numbers, rfl⟩
    | text s => cases hv

/-- Values of a column of texts are texts. -/
theorem exists_texts {limit : UInt16} {values : List Value}
    (h : ∀ v ∈ values, v.fits (.text limit)) :
    ∃ texts : List String, values = texts.map Value.text := by
  induction values with
  | nil => exact ⟨[], rfl⟩
  | cons v values ih =>
    obtain ⟨texts, rfl⟩ := ih fun w hw => h w (List.mem_cons_of_mem _ hw)
    have hv := h v List.mem_cons_self
    cases v with
    | int n => cases hv
    | text s => exact ⟨s :: texts, rfl⟩

/-! ## 2. The first pass -/

namespace TableStats

/-- The range is that of the numbers: its ends are the least and the greatest of them. -/
def Range.Bounds (range : Range) (numbers : List Int) : Prop :=
  match range with
  | none => numbers = []
  | some (least, greatest) =>
    IsLeast {n | n ∈ numbers} least ∧ IsGreatest {n | n ∈ numbers} greatest

/-- One number more makes the range reach to it, if it did not. -/
theorem Range.Bounds.add {range : Range} {numbers : List Int} (h : Bounds range numbers)
    (n : Int32) : Bounds (Range.add range (.int n)) (numbers ++ [n.toInt]) := by
  have hset : {m | m ∈ numbers ++ [n.toInt]} = insert n.toInt {m | m ∈ numbers} := by
    ext m
    simp only [List.mem_append, List.mem_singleton, Set.mem_ofPred_eq, Set.mem_insert_iff, or_comm]
  cases range with
  | none =>
    obtain rfl : numbers = [] := h
    simp only [Range.add, Bounds, List.nil_append, List.mem_singleton, Set.ofPred_eq_eq_singleton]
    exact ⟨isLeast_singleton, isGreatest_singleton⟩
  | some ends =>
    obtain ⟨least, greatest⟩ := ends
    obtain ⟨hleast, hgreatest⟩ := h
    simp only [Range.add, Bounds, hset]
    rw [min_comm, max_comm]
    exact ⟨hleast.insert _, hgreatest.insert _⟩

/-- **The range of numbers** is exact.  By induction on them: the range of those in front is. -/
theorem Range.bounds_foldl {range : Range} {before : List Int} (h : Bounds range before)
    (numbers : List Int32) :
    Bounds ((numbers.map Value.int).foldl Range.add range) (before ++ numbers.map (·.toInt)) := by
  induction numbers generalizing range before with
  | nil =>
    rw [List.map_nil, List.map_nil, List.append_nil]
    exact h
  | cons n numbers ih =>
    have hrest := ih (h.add n)
    rw [List.append_assoc] at hrest
    exact hrest

theorem Range.Bounds.le {least greatest : Int} {numbers : List Int}
    (h : Bounds (some (least, greatest)) numbers) : least ≤ greatest := h.1.2 h.2.1

end TableStats

/-! ## 3. The second pass -/

namespace NumberHistogram

/-- The histogram counts the numbers, each in the bucket between whose ends it lies. -/
structure Describes (h : NumberHistogram) (buckets : Nat) (numbers : List Int) : Prop where
  size : h.counts.size = buckets
  total : h.total = numbers.length
  /-- No number is counted as an end of the range in its place. -/
  nearest : ∀ n ∈ numbers, h.nearest n = n
  divided : h.Divided
  count : ∀ b < buckets, h.count b = numbers.countP fun n => h.InBucket b n

/-- The range reaches from the least of the numbers to the greatest.  Without numbers it is zero. -/
def Reaches (h : NumberHistogram) (numbers : List Int) : Prop :=
  if numbers = [] then h.least = 0 ∧ h.greatest = 0
  else IsLeast {n | n ∈ numbers} h.least ∧ IsGreatest {n | n ∈ numbers} h.greatest

variable {h : NumberHistogram} {numbers : List Int}

theorem Counted.describes (hc : h.Counted numbers) (hspans : ∀ n ∈ numbers, h.Spans n) :
    h.Describes h.counts.size numbers where
  size := rfl
  total := hc.total
  nearest n hn := nearest_eq (hspans n hn)
  divided := hc.regular.divided
  count b hb := by
    rw [hc.tallied.count b hb]
    refine List.countP_congr fun n hn => ?_
    rw [nearest_eq (hspans n hn)]

/-- A histogram whose range was found by a pass over the numbers. -/
theorem exists_describes {buckets : Nat} (hsome : 0 < buckets) {range : TableStats.Range}
    (hrange : TableStats.Range.Bounds range numbers) :
    ∃ h, make buckets (range.getD (0, 0)).1 (range.getD (0, 0)).2 = .ok h ∧
      (h.addAll numbers).Reaches numbers ∧ (h.addAll numbers).Describes buckets numbers := by
  cases range with
  | none =>
    obtain rfl : numbers = [] := hrange
    obtain ⟨h, hmake, hleast, hgreatest, hsize⟩ := exists_make hsome (Int.le_refl 0)
    refine ⟨h, hmake, ?_, ?_⟩
    · rw [Reaches, if_pos rfl]
      exact ⟨hleast, hgreatest⟩
    · rw [← hsize]
      exact (counted_make hmake).describes fun n hn => by cases hn
  | some ends =>
    obtain ⟨h, hmake, hleast, hgreatest, hsize⟩ := exists_make hsome hrange.le
    obtain ⟨hleast', hgreatest', -, hsize'⟩ := shape_addAll h numbers
    rw [hleast] at hleast'
    rw [hgreatest] at hgreatest'
    refine ⟨h, hmake, ?_, ?_⟩
    · rw [Reaches, if_neg (List.ne_nil_of_mem hrange.1.1), hleast', hgreatest']
      exact hrange
    · rw [← hsize, ← hsize']
      refine (counted_addAll hmake numbers).describes fun n hn => ?_
      rw [Spans, hleast', hgreatest']
      exact ⟨hrange.1.2 hn, hrange.2.2 hn⟩

end NumberHistogram

/-- The range of the keys is there before any text is. -/
theorem TextHistogram.exists_describes {buckets : Nat} (hsome : 0 < buckets) (texts : List String) :
    ∃ h, make buckets = .ok h ∧ (h.addAll texts).keys.least = 0 ∧
      (h.addAll texts).keys.greatest = lastKey ∧
      (h.addAll texts).keys.Describes buckets (texts.map fun s => (key s : Int)) := by
  obtain ⟨h, hmake, hsize⟩ := exists_make hsome
  have hc := counted_addAll hmake texts
  refine ⟨h, hmake, hc.least, hc.greatest, ?_⟩
  rw [← hsize, ← size_addAll h texts]
  refine hc.keys.describes fun n hn => ?_
  obtain ⟨s, -, rfl⟩ := List.mem_map.mp hn
  exact hc.spans_key s

namespace Histogram

/-- What a histogram of a column says of the values of the column. -/
inductive Describes (buckets : Nat) : DataType → List Value → Histogram → Prop
  | numbers {h : NumberHistogram} {numbers : List Int32} (hends : h.Reaches (numbers.map (·.toInt)))
      (hcounts : h.Describes buckets (numbers.map (·.toInt))) :
      Describes buckets .int (numbers.map Value.int) (.numbers h)
  | texts {limit : UInt16} {h : TextHistogram} {texts : List String} (hleast : h.keys.least = 0)
      (hgreatest : h.keys.greatest = TextHistogram.lastKey)
      (hcounts : h.keys.Describes buckets (texts.map fun s => (TextHistogram.key s : Int))) :
      Describes buckets (.text limit) (texts.map Value.text) (.texts h)

theorem Describes.total_eq {buckets : Nat} {type : DataType} {values : List Value} {h : Histogram}
    (hd : Describes buckets type values h) : h.total = values.length := by
  cases hd with
  | numbers hends hcounts =>
    rw [List.length_map]
    exact hcounts.total.trans (List.length_map _)
  | texts hleast hgreatest hcounts =>
    rw [List.length_map]
    exact hcounts.total.trans (List.length_map _)

theorem foldl_add_numbers (h : NumberHistogram) (numbers : List Int32) :
    (numbers.map Value.int).foldl add (.numbers h) =
      .numbers (h.addAll (numbers.map (·.toInt))) := by
  induction numbers generalizing h with
  | nil => rfl
  | cons n numbers ih => exact ih (h.add n.toInt)

theorem foldl_add_texts (h : TextHistogram) (texts : List String) :
    (texts.map Value.text).foldl add (.texts h) = .texts (h.addAll texts) := by
  induction texts generalizing h with
  | nil => rfl
  | cons s texts ih => exact ih (h.add s)

/-- **A column**, gone over twice. -/
theorem exists_describes {buckets : Nat} (hsome : 0 < buckets) {c : Column} {values : List Value}
    (hfits : ∀ v ∈ values, v.fits c.type) :
    ∃ h, TableStats.emptyHistogram buckets c (values.foldl TableStats.Range.add none) = .ok h ∧
      Describes buckets c.type values (values.foldl add h) := by
  obtain ⟨name, type⟩ := c
  cases type with
  | int =>
    obtain ⟨numbers, rfl⟩ := exists_numbers hfits
    have hrange := @TableStats.Range.bounds_foldl none [] rfl numbers
    obtain ⟨h, hmake, hends, hcounts⟩ := NumberHistogram.exists_describes hsome hrange
    refine ⟨.numbers h, congrArg (Except.map Histogram.numbers) hmake, ?_⟩
    rw [foldl_add_numbers]
    exact .numbers hends hcounts
  | text limit =>
    obtain ⟨texts, rfl⟩ := exists_texts hfits
    obtain ⟨h, hmake, hleast, hgreatest, hcounts⟩ := TextHistogram.exists_describes hsome texts
    refine ⟨.texts h, congrArg (Except.map Histogram.texts) hmake, ?_⟩
    rw [foldl_add_texts]
    exact .texts hleast hgreatest hcounts

end Histogram

/-! ## 4. All columns -/

namespace TableStats

variable {schema : Schema} {rows : List Row} {buckets : Nat}

theorem getElem?_ranges (schema : Schema) (rows : List Row) (field : Nat) :
    (ranges schema rows)[field]? =
      (schema.column? field).map fun _ => (Row.column rows field).foldl Range.add none := by
  rw [ranges, getElem?_foldl_changeEach, List.getElem?_map, Option.map_map]
  rfl

/-- The columns with their ranges. -/
theorem getElem?_zip_ranges {field : Nat} {c : Column} {range : Range} :
    (schema.columns.zip (ranges schema rows))[field]? = some (c, range) ↔
      schema.column? field = some c ∧ range = (Row.column rows field).foldl Range.add none := by
  rw [List.getElem?_zip_eq_some, getElem?_ranges, Schema.column?]
  constructor
  · rintro ⟨hc, hrange⟩
    rw [hc] at hrange
    exact ⟨hc, (Option.some.inj hrange).symm⟩
  · rintro ⟨hc, rfl⟩
    rw [hc]
    exact ⟨rfl, rfl⟩

theorem length_ranges (schema : Schema) (rows : List Row) :
    (ranges schema rows).length = schema.columns.length :=
  (length_foldl_changeEach _ _ _).trans (List.length_map _)

theorem getElem?_foldl_addRow (rows : List Row) (histograms : List Histogram) (field : Nat) :
    (rows.foldl addRow histograms)[field]? =
      histograms[field]?.map fun h => (Row.column rows field).foldl Histogram.add h :=
  getElem?_foldl_changeEach Histogram.add rows histograms field

/-- **Both passes** over the rows of a table: every column gets its histogram. -/
theorem exists_histograms (hsome : 0 < buckets) (hrows : ∀ row ∈ rows, row.schema = schema) :
    ∃ empty, (schema.columns.zip (ranges schema rows)).mapM
        (fun pair => emptyHistogram buckets pair.1 pair.2) = .ok empty ∧
      (rows.foldl addRow empty).length = schema.columns.length ∧
      ∀ field c, schema.column? field = some c → ∃ h, (rows.foldl addRow empty)[field]? = some h ∧
        Histogram.Describes buckets c.type (Row.column rows field) h := by
  have hcolumns : ∀ pair ∈ schema.columns.zip (ranges schema rows), ∃ h,
      emptyHistogram buckets pair.1 pair.2 = .ok h ∧
        emptyHistogram buckets pair.1 pair.2 = .ok h := by
    rintro ⟨c, range⟩ hpair
    obtain ⟨field, hfield⟩ := List.mem_iff_getElem?.mp hpair
    obtain ⟨hc, rfl⟩ := getElem?_zip_ranges.mp hfield
    obtain ⟨h, hempty, -⟩ := Histogram.exists_describes hsome (Row.column_fits hrows hc).2
    exact ⟨h, hempty, hempty⟩
  obtain ⟨empty, hmapM, hall⟩ := exists_mapM_ok hcolumns
  have hlength : empty.length = schema.columns.length := by
    rw [← hall.length_eq, List.length_zip, length_ranges, Nat.min_self]
  refine ⟨empty, hmapM, (length_foldl_changeEach _ rows empty).trans hlength, fun field c hc => ?_⟩
  obtain ⟨hlt, hpair⟩ := List.getElem?_eq_some_iff.mp
    ((@getElem?_zip_ranges schema rows field c _).mpr ⟨hc, rfl⟩)
  have hempty := hall.get hlt (hall.length_eq ▸ hlt)
  rw [List.get_eq_getElem, hpair, List.get_eq_getElem] at hempty
  obtain ⟨h, hempty', hd⟩ := Histogram.exists_describes hsome (Row.column_fits hrows hc).2
  obtain rfl := Except.ok.inj (hempty'.symm.trans hempty)
  refine ⟨_, ?_, hd⟩
  rw [getElem?_foldl_addRow, List.getElem?_eq_getElem, Option.map_some]

end TableStats
end RowStore
