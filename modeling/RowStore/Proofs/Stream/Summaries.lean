/-
# What an aggregate says of its groups

An aggregate keeps a few numbers for each group while the rows of the other stream come by.  What it
hands out in the end can be said without them: for each value of the grouping column, in the order in
which these come, the count, the sum, the mean cut towards zero, the least or the greatest of the
group's numbers, as numbers without bounds (`Summary.amount`).

Up to as many rows as thirty-two bits can number, what is kept gives this exactly
(`Tally.result_foldl_add`).  A mean is no larger than its largest number, and so means, least and
greatest numbers always fit a value again (`Summary.fitsWord_amount`); counts and sums need not.

The result is `Aggregate.drain_cases`: opening and emptying an aggregate either gives a row for every
group, or opening it fails for the first group whose count or sum does not fit.
-/
import RowStore.Proofs.Stream.Groups

namespace RowStore

open Aggregate (fitsWord numbers valuesOf)

/-! ## 1. Amounts -/

/-- What the function comes to over values, in numbers without bounds. -/
def Summary.amount : Summary → List Value → Int
  | .count, vs => vs.length
  | .sum, vs => (numbers vs).sum
  | .avg, vs => (numbers vs).sum.tdiv vs.length
  | .min, vs => (numbers vs).min?.getD 0
  | .max, vs => (numbers vs).max?.getD 0

namespace Aggregate

theorem fitsWord_iff {n : Int} : fitsWord n = true ↔ -2147483648 ≤ n ∧ n ≤ 2147483647 := by
  simp only [fitsWord, Bool.and_eq_true, decide_eq_true_eq]

theorem toInt_ofInt_of_fitsWord {n : Int} (h : fitsWord n = true) : (Int32.ofInt n).toInt = n := by
  obtain ⟨hle, hge⟩ := fitsWord_iff.mp h
  exact Int32.toInt_ofInt_of_le (by omega) (by omega)

theorem fitsWord_of_mem_numbers {vs : List Value} {n : Int} (h : n ∈ numbers vs) :
    fitsWord n = true := by
  obtain ⟨v, -, hv⟩ := List.mem_filterMap.mp h
  cases v with
  | text s => cases hv
  | int m =>
    obtain rfl : m.toInt = n := Option.some.inj hv
    have hle := m.le_toInt
    have hlt := m.toInt_lt
    exact fitsWord_iff.mpr ⟨by omega, by omega⟩

/-- A sum is no larger than if all the numbers were the largest there is, and likewise at the other
end. -/
theorem sum_numbers_mem (vs : List Value) : -2147483648 * (vs.length : Int) ≤ (numbers vs).sum ∧
    (numbers vs).sum ≤ 2147483647 * (vs.length : Int) := by
  have hbound := natAbs_sum_numbers_le vs
  constructor
  · omega
  · induction vs with
    | nil => simp [numbers]
    | cons v vs ih =>
      have hle := ih (natAbs_sum_numbers_le vs)
      rw [List.length_cons]
      cases v with
      | text s =>
        have hsame : numbers (.text s :: vs) = numbers vs := rfl
        rw [hsame]
        omega
      | int n =>
        have hcons : numbers (.int n :: vs) = n.toInt :: numbers vs := rfl
        have hlt := n.toInt_lt
        rw [hcons, List.sum_cons]
        omega

end Aggregate

namespace Summary

open Aggregate

/-- A mean lies between the least and the greatest number that there can be. -/
theorem fitsWord_avg (vs : List Value) : fitsWord ((numbers vs).sum.tdiv vs.length) = true := by
  obtain ⟨hle, hge⟩ := sum_numbers_mem vs
  rw [fitsWord_iff]
  generalize (numbers vs).sum = total at hle hge ⊢
  generalize (vs.length : Int) = count at hle hge ⊢
  rcases Int.lt_or_le 0 count with hpos | hzero
  · rcases Int.le_total 0 total with hnonneg | hneg
    · rw [Int.tdiv_eq_ediv_of_nonneg hnonneg]
      have hlow := Int.ediv_nonneg hnonneg (Int.le_of_lt hpos)
      have hhigh := Int.ediv_le_of_le_mul hpos hge
      constructor
      · omega
      · exact hhigh
    · have hneg' : 0 ≤ -total := by omega
      have hcut : total.tdiv count = -(-total / count) := by
        rw [← Int.tdiv_eq_ediv_of_nonneg hneg', Int.neg_tdiv, Int.neg_neg]
      have hlow := Int.ediv_nonneg hneg' (Int.le_of_lt hpos)
      have hhigh : -total / count ≤ 2147483648 := Int.ediv_le_of_le_mul hpos (by omega)
      rw [hcut]
      constructor
      · omega
      · omega
  · -- both bounds are none then, and there is nothing to divide
    obtain rfl : total = 0 := by omega
    rw [Int.zero_tdiv]
    decide

/-- **Means, least and greatest numbers** are numbers of thirty-two bits. -/
theorem fitsWord_amount {summary : Summary} (hcount : summary ≠ .count) (hsum : summary ≠ .sum)
    (vs : List Value) : fitsWord (summary.amount vs) = true := by
  cases summary with
  | count => exact absurd rfl hcount
  | sum => exact absurd rfl hsum
  | avg => exact fitsWord_avg vs
  | min =>
    change fitsWord ((numbers vs).min?.getD 0) = true
    cases hmin : (numbers vs).min? with
    | none => decide
    | some n => exact fitsWord_of_mem_numbers (List.min?_mem hmin)
  | max =>
    change fitsWord ((numbers vs).max?.getD 0) = true
    cases hmax : (numbers vs).max? with
    | none => decide
    | some n => exact fitsWord_of_mem_numbers (List.max?_mem hmax)

end Summary

namespace Aggregate

/-- **What is kept of a group** gives its amount exactly. -/
theorem Tally.result_foldl_add {vs : List Value} (hsome : vs ≠ [])
    (hfew : vs.length < 4294967296) (summary : Summary) :
    (vs.foldl Tally.add {}).result summary = summary.amount vs := by
  have hpos := List.length_pos_iff.mpr hsome
  rw [Tally.foldl_add hfew]
  cases summary with
  | count =>
    change saturated (vs.length : Int) = vs.length
    rw [saturated]
    omega
  | sum => rfl
  | avg =>
    have hcount : saturated (max (vs.length : Int) 1) = vs.length := by
      rw [saturated]
      omega
    change (numbers vs).sum.tdiv (saturated (max (vs.length : Int) 1)) = _
    rw [hcount]
    rfl
  | min => rfl
  | max => rfl

/-! ## 2. The groups of rows -/

/-- The values of the grouping column, each once, in the order in which they come.  Without grouping
there is one group, by no value, if there are rows. -/
def keys (a : Aggregate) (below : List Row) : List (Option Value) :=
  (below.map fun row => (a.entry row).1).eraseDups

/-- The amount for a group of the rows. -/
def amountOf (a : Aggregate) (below : List Row) (key : Option Value) : Int :=
  a.summary.amount (valuesOf (below.map a.entry) key)

variable {a : Aggregate} {schema : Schema} {below : List Row}

theorem mem_keys {key : Option Value} :
    key ∈ a.keys below ↔ ∃ row ∈ below, (a.entry row).1 = key := by
  rw [keys, List.mem_eraseDups, List.mem_map]

theorem keys_of_ungrouped (h : a.group = none) (hsome : below ≠ []) : a.keys below = [none] := by
  have hnone : ∀ row, (a.entry row).1 = none := by
    intro row
    rw [entry, h]
    rfl
  have hall : ∀ key ∈ a.keys below, key = none := by
    intro key hkey
    obtain ⟨row, -, rfl⟩ := mem_keys.mp hkey
    exact hnone row
  obtain ⟨row, hrow⟩ := List.exists_mem_of_ne_nil below hsome
  have hmem : none ∈ a.keys below := mem_keys.mpr ⟨row, hrow, hnone row⟩
  have hnodup : (a.keys below).Nodup := nodup_eraseDups _
  cases hkeys : a.keys below with
  | nil =>
    rw [hkeys] at hmem
    cases hmem
  | cons key rest =>
    rw [hkeys] at hall hnodup
    obtain rfl := hall key List.mem_cons_self
    cases rest with
    | nil => rfl
    | cons key' rest =>
      obtain rfl := hall key' (List.mem_cons_of_mem _ List.mem_cons_self)
      exact absurd List.mem_cons_self (List.nodup_cons.mp hnodup).1

/-- What an aggregate keeps of the rows of a group. -/
def tallyOf (a : Aggregate) (below : List Row) (key : Option Value) : Tally :=
  (valuesOf (below.map a.entry) key).foldl Tally.add {}

theorem groups_eq (a : Aggregate) (below : List Row) :
    a.groups below = (a.keys below).map fun key => (key, a.tallyOf below key) := by
  simp only [groups, groupsOf, keys, tallyOf, List.map_map, Function.comp_def]

theorem result_tallyOf (hfew : below.length < 4294967296) {key : Option Value}
    (hkey : key ∈ a.keys below) :
    (a.tallyOf below key).result a.summary = a.amountOf below key := by
  have hle : (valuesOf (below.map a.entry) key).length ≤ below.length := by
    rw [valuesOf, List.length_map]
    exact Nat.le_trans (List.length_filter_le _ _) (Nat.le_of_eq (List.length_map ..))
  refine Tally.result_foldl_add ?_ (by omega) a.summary
  obtain ⟨row, hrow, hentry⟩ := mem_keys.mp hkey
  refine List.ne_nil_of_mem (a := (a.entry row).2) ?_
  rw [valuesOf, List.mem_map]
  refine ⟨a.entry row, ?_, rfl⟩
  rw [List.mem_filter, decide_eq_true_eq]
  exact ⟨List.mem_map_of_mem hrow, hentry⟩

/-! ## 3. The rows of the groups -/

/-- The row says of a group what the rows below come to. -/
structure Tells (a : Aggregate) (below : List Row) (key : Option Value) (row : Row) : Prop where
  schema : row.schema = a.schema
  values : ∃ n : Int32, n.toInt = a.amountOf below key ∧ row.values = key.toList ++ [.int n]
  place : row.place = none

/-- **A group** has its row if its amount is a number of thirty-two bits, and overflows otherwise. -/
theorem Accepts.finishGroup_eq (h : a.Accepts schema) (hrows : ∀ row ∈ below, row.schema = schema)
    (hfew : below.length < 4294967296) {key : Option Value} (hkey : key ∈ a.keys below) :
    if fitsWord (a.amountOf below key) then
      ∃ row, a.finishGroup (key, a.tallyOf below key) = .ok row ∧ a.Tells below key row
    else a.finishGroup (key, a.tallyOf below key) =
      .error (.overflow a.summary (a.amountOf below key)) := by
  have hresult := result_tallyOf hfew hkey
  obtain ⟨row, hrow, rfl⟩ := mem_keys.mp hkey
  simp only [finishGroup, Tally.finish, hresult]
  split
  · rename_i hfits
    have hadmits := h.admits (hrows row hrow) (Int32.ofInt (a.amountOf below (a.entry row).1))
    refine ⟨⟨a.schema, _, none, hadmits⟩, ?_, rfl, ?_, rfl⟩
    · exact dif_pos hadmits
    · exact ⟨_, toInt_ofInt_of_fitsWord hfits, rfl⟩
  · rfl

end Aggregate

/-- The first element that fails decides, if those in front of it do not. -/
theorem mapM_error_of_find? {α β : Type} {f : α → Except Error β} {p : α → Bool} {l : List α} {a : α}
    {e : Error} (hfind : l.find? p = some a) (hok : ∀ b ∈ l, p b = false → ∃ c, f b = .ok c)
    (herror : f a = .error e) : l.mapM f = .error e := by
  induction l with
  | nil => cases hfind
  | cons b l ih =>
    rw [List.mapM_cons]
    cases hb : p b with
    | true =>
      rw [List.find?_cons_of_pos hb] at hfind
      obtain rfl : b = a := Option.some.inj hfind
      rw [herror]
      rfl
    | false =>
      rw [List.find?_cons_of_neg (by rw [hb]; exact Bool.false_ne_true)] at hfind
      obtain ⟨c, hc⟩ := hok b List.mem_cons_self hb
      have hrest := ih hfind fun b' hb' => hok b' (List.mem_cons_of_mem b hb')
      rw [hc, hrest]
      rfl

/-- If every element has a result, the results are those of the elements, one after the other. -/
theorem exists_mapM_ok {α β : Type} {f : α → Except Error β} {P : α → β → Prop} {l : List α}
    (h : ∀ a ∈ l, ∃ b, f a = .ok b ∧ P a b) : ∃ bs, l.mapM f = .ok bs ∧ List.Forall₂ P l bs := by
  induction l with
  | nil => exact ⟨[], rfl, .nil⟩
  | cons a l ih =>
    obtain ⟨b, hb, hp⟩ := h a List.mem_cons_self
    obtain ⟨bs, hbs, hps⟩ := ih fun a' ha' => h a' (List.mem_cons_of_mem a ha')
    refine ⟨b :: bs, ?_, .cons hp hps⟩
    rw [List.mapM_cons, hb, hbs]
    rfl

namespace Aggregate

variable {a : Aggregate} {schema : Schema} {below : List Row}

/-- The first group whose amount takes more than thirty-two bits. -/
def firstOverflow? (a : Aggregate) (below : List Row) : Option (Option Value) :=
  (a.keys below).find? fun key => !fitsWord (a.amountOf below key)

theorem finish_groups (a : Aggregate) (below : List Row) : a.finish (a.groups below) =
    (a.keys below).mapM fun key => a.finishGroup (key, a.tallyOf below key) := by
  rw [finish, groups_eq, List.mapM_map]
  rfl

theorem Accepts.finish_overflow (h : a.Accepts schema)
    (hrows : ∀ row ∈ below, row.schema = schema) (hfew : below.length < 4294967296)
    {key : Option Value} (hfirst : a.firstOverflow? below = some key) :
    a.finish (a.groups below) = .error (.overflow a.summary (a.amountOf below key)) := by
  rw [finish_groups]
  refine mapM_error_of_find? hfirst ?_ ?_
  · intro key' hkey' hfits
    have hgroup := h.finishGroup_eq hrows hfew hkey'
    rw [Bool.not_eq_false'] at hfits
    rw [if_pos hfits] at hgroup
    obtain ⟨row, hrow, -⟩ := hgroup
    exact ⟨row, hrow⟩
  · have hgroup := h.finishGroup_eq hrows hfew (List.mem_of_find?_eq_some hfirst)
    have hover := List.find?_some hfirst
    rw [Bool.not_eq_true'] at hover
    rwa [if_neg (by rw [hover]; exact Bool.false_ne_true)] at hgroup

theorem Accepts.finish_rows (h : a.Accepts schema) (hrows : ∀ row ∈ below, row.schema = schema)
    (hfew : below.length < 4294967296) (hnone : a.firstOverflow? below = none) :
    ∃ all, a.finish (a.groups below) = .ok all ∧
      List.Forall₂ (a.Tells below) (a.keys below) all := by
  rw [finish_groups]
  refine exists_mapM_ok fun key hkey => ?_
  have hgroup := h.finishGroup_eq hrows hfew hkey
  have hfits := List.find?_eq_none.mp hnone key hkey
  rw [Bool.not_eq_true, Bool.not_eq_false'] at hfits
  rwa [if_pos hfits] at hgroup

/-- **Only counts and sums** overflow. -/
theorem summary_of_firstOverflow? {key : Option Value} (h : a.firstOverflow? below = some key) :
    a.summary = .count ∨ a.summary = .sum := by
  have hover := List.find?_some h
  rw [Bool.not_eq_true'] at hover
  by_contra hno
  rw [not_or] at hno
  have hfits : fitsWord (a.amountOf below key) = true := Summary.fitsWord_amount hno.1 hno.2 _
  exact Bool.false_ne_true (hover.symm.trans hfits)

end Aggregate

/-! ## 4. The streams -/

namespace RowStream

variable {σ β : Type} {s : RowStream σ} {step : β → Row → Except Error β}

/-- Working rows into a result takes just the rows that would be taken otherwise. -/
theorem foldUpTo_of_take {count : Nat} {below : List Row} {st st' : σ × Database} {result final : β}
    (htake : (s.take count).run st = .ok below st') (hfold : below.foldlM step result = .ok final) :
    (s.foldUpTo step count result).run st = .ok final st' := by
  induction count generalizing below st result with
  | zero =>
    cases htake
    cases hfold
    rfl
  | succ count ih =>
    simp only [take, EStateM.run_bind] at htake
    simp only [foldUpTo, EStateM.run_bind]
    cases hnext : s.next.run st with
    | error e st₁ =>
      rw [hnext] at htake
      cases htake
    | ok row? st₁ =>
      rw [hnext] at htake
      cases row? with
      | none =>
        cases htake
        cases hfold
        rfl
      | some row =>
        simp only at htake
        cases hrest : (s.take count).run st₁ with
        | error e st₂ =>
          rw [EStateM.run_bind, hrest] at htake
          cases htake
        | ok rest st₂ =>
          rw [EStateM.run_bind, hrest] at htake
          cases htake
          rw [List.foldlM_cons] at hfold
          obtain ⟨result', hstep, hfold⟩ := exists_of_bind_ok hfold
          obtain ⟨state₁, db₁⟩ := st₁
          have hattempt : (Database.attempt (step result row)).run db₁ = .ok result' db₁ := by
            rw [hstep]
            rfl
          simp only [EStateM.run_bind, StreamM.run_onDatabase_ok hattempt]
          exact ih hrest hfold

theorem fold_of_collect {below : List Row} {st st' : σ × Database} {result final : β}
    (hcollect : s.collect.run st = .ok below st')
    (hfold : below.foldlM step result = .ok final) :
    (s.fold step result).run st = .ok final st' := by
  obtain ⟨state, db⟩ := st
  simp only [collect, EStateM.run_bind, EStateM.run_get] at hcollect
  simp only [fold, EStateM.run_bind, EStateM.run_get]
  exact foldUpTo_of_take hcollect hfold

end RowStream

namespace Aggregate

variable {σ : Type} {a : Aggregate} {child : RowStream σ} {schema : Schema} {below : List Row}
  {t t' : σ} {db db' : Database}

/-- **Opening an aggregate** comes down to its groups. -/
theorem start_run (h : a.Accepts schema) (hrows : ∀ row ∈ below, row.schema = schema)
    (hbelow : child.drain.run (t, db) = .ok below (t', db')) (results : Option Results) :
    (start a child).run (⟨t, results⟩, db) =
      match a.finish (a.groups below) with
      | .error e => .error e (⟨t', results⟩, db')
      | .ok all => .ok () (⟨t', some ⟨all, all⟩⟩, db') := by
  simp only [RowStream.drain, EStateM.run_bind] at hbelow
  cases hstart : child.start.run (t, db) with
  | error e st =>
    rw [hstart] at hbelow
    cases hbelow
  | ok _ st =>
    rw [hstart] at hbelow
    obtain ⟨t₁, db₁⟩ := st
    have hfold := RowStream.fold_of_collect hbelow (h.foldlM_addRow hrows)
    simp only [start, EStateM.run_bind, run_onChild_ok hstart, run_onChild_ok hfold]
    cases a.finish (a.groups below) with
    | error e => rfl
    | ok all => rfl

theorem run_next_cons {row : Row} {all rest : List Row} :
    (stream a child).next.run (⟨t, some ⟨all, row :: rest⟩⟩, db) =
      .ok (some row) (⟨t, some ⟨all, rest⟩⟩, db) := rfl

/-- The results are handed out one after the other. -/
theorem take_results {all rest : List Row} {count : Nat} (hcount : rest.length ≤ count) :
    ((stream a child).take count).run (⟨t, some ⟨all, rest⟩⟩, db) =
      .ok rest (⟨t, some ⟨all, []⟩⟩, db) := by
  induction count generalizing rest with
  | zero =>
    obtain rfl := List.length_eq_zero_iff.mp (Nat.le_zero.mp hcount)
    rfl
  | succ count ih =>
    cases rest with
    | nil => rfl
    | cons row rest =>
      have hrest := ih (Nat.le_of_succ_le_succ hcount)
      simp only [RowStream.take, EStateM.run_bind, run_next_cons, hrest]
      rfl

theorem collect_results (all : List Row) :
    (stream a child).collect.run (⟨t, some ⟨all, all⟩⟩, db) =
      .ok all (⟨t, some ⟨all, []⟩⟩, db) := by
  have hbound : all.length ≤ (stream a child).bound ⟨t, some ⟨all, all⟩⟩ db + 1 :=
    Nat.le_succ_of_le (Nat.le_max_right _ _)
  simp only [RowStream.collect, EStateM.run_bind, EStateM.run_get]
  exact take_results hbound

/-! ## 5. The result -/

/-- But for counts, only numbers are summed up. -/
theorem exists_int_of_accepts {summary : Summary} {field : Nat} {c : Column} {row : Row}
    (hcount : summary ≠ .count) (haccepts : summary.accepts c.type = true)
    (hc : row.schema.column? field = some c) : ∃ n, row.value? field = some (.int n) := by
  have hint : c.type = .int := by
    cases hkind : c.type with
    | int => rfl
    | text limit =>
      rw [hkind] at haccepts
      cases summary with
      | count => exact absurd rfl hcount
      | sum => cases haccepts
      | avg => cases haccepts
      | min => cases haccepts
      | max => cases haccepts
  obtain ⟨v, hv, hfits⟩ := Schema.admits_go_getElem? row.fits hc
  rw [hint] at hfits
  cases v with
  | int n => exact ⟨n, hv⟩
  | text content => cases hfits

/-- **What an aggregate says of its groups.**  Take an aggregate that could be made over a stream, and
let the stream hand out some rows of its schema when it is opened and emptied, fewer than thirty-two
bits can number.  If the amounts of all groups are numbers of thirty-two bits, the aggregate opens, and
hands out a row for each group that tells its amount, in the order in which the groups come; there is
no group without rows, and a single one without grouping.  Otherwise opening it fails with the first
amount that does not fit, and results from before are kept; this happens to counts and sums only. -/
theorem drain_cases {field : Nat} {group : Option Nat} {summary : Summary}
    (hmake : make child.schema field group summary = .ok a)
    (hbelow : child.drain.run (t, db) = .ok below (t', db'))
    (hrows : ∀ row ∈ below, row.schema = child.schema) (hfew : below.length < 4294967296)
    (results : Option Results) :
    (match a.firstOverflow? below with
      | some key => (summary = .count ∨ summary = .sum) ∧
          (stream a child).start.run (⟨t, results⟩, db) =
            .error (.overflow summary (a.amountOf below key)) (⟨t', results⟩, db')
      | none => ∃ all, (stream a child).drain.run (⟨t, results⟩, db) =
            .ok all (⟨t', some ⟨all, []⟩⟩, db') ∧
          List.Forall₂ (a.Tells below) (a.keys below) all) ∧
      (below = [] → a.keys below = []) ∧
      (group = none → below ≠ [] → a.keys below = [none]) ∧
      (summary ≠ .count → ∀ row ∈ below, ∃ n, row.value? field = some (.int n)) := by
  have h := make_accepts hmake
  obtain ⟨c, hc, haccepts, rfl, rfl, rfl, -⟩ := make_cases hmake
  have hstart := start_run h hrows hbelow results
  refine ⟨?_, ?_, keys_of_ungrouped, ?_⟩
  · cases hfirst : a.firstOverflow? below with
    | some key =>
      rw [h.finish_overflow hrows hfew hfirst] at hstart
      exact ⟨summary_of_firstOverflow? hfirst, hstart⟩
    | none =>
      obtain ⟨all, hall, htells⟩ := h.finish_rows hrows hfew hfirst
      rw [hall] at hstart
      refine ⟨all, ?_, htells⟩
      change (stream a child).start.run (⟨t, results⟩, db) = _ at hstart
      simp only [RowStream.drain, EStateM.run_bind, hstart]
      exact collect_results all
  · rintro rfl
    rfl
  · intro hcount row hrow
    exact exists_int_of_accepts hcount haccepts ((hrows row hrow).symm ▸ hc)

/-- Groups by the first number of a row: the mean of the first group is cut towards zero, and the sum
of the second one is too large. -/
theorem drain_cases_pairs :
    ∃ (schema : Schema) (below all : List Row) (mean total : Aggregate) (db : Database),
      make schema 1 (some 0) .avg = .ok mean ∧ make schema 1 (some 0) .sum = .ok total ∧
      (Listing.stream schema below).drain.run (none, db) = .ok below (some [], db) ∧
      (∀ row ∈ below, row.schema = schema) ∧ below.length < 4294967296 ∧
      (stream mean (Listing.stream schema below)).drain.run (⟨none, none⟩, db) =
        .ok all (⟨some [], some ⟨all, []⟩⟩, db) ∧
      List.Forall₂ (mean.Tells below) [some (.int 2), some (.int 1)] all ∧
      [some (.int 2), some (.int 1)].map (mean.amountOf below) = [-2, 2147483647] ∧
      (stream total (Listing.stream schema below)).start.run (⟨none, none⟩, db) =
        .error (.overflow .sum 4294967294) (⟨some [], none⟩, db) := by
  let schema : Schema := ⟨[⟨"k", .int⟩, ⟨"n", .int⟩]⟩
  let below : List Row := [⟨schema, [.int 2, .int 5], none, rfl⟩,
    ⟨schema, [.int 1, .int 2147483647], none, rfl⟩, ⟨schema, [.int 2, .int (-10)], none, rfl⟩,
    ⟨schema, [.int 1, .int 2147483647], none, rfl⟩]
  let mean : Aggregate := ⟨1, some 0, .avg, schema⟩
  let total : Aggregate := ⟨1, some 0, .sum, schema⟩
  let db : Database := ⟨.empty, #[], .empty 8, ⟨Lru.empty 1, [], 0⟩⟩
  let child : RowStream (Option (List Row)) := Listing.stream schema below
  have hmean : make child.schema 1 (some 0) .avg = .ok mean := rfl
  have htotal : make child.schema 1 (some 0) .sum = .ok total := rfl
  have hbelow : child.drain.run (none, db) = .ok below (some [], db) := rfl
  have hrows : ∀ row ∈ below, row.schema = schema := by
    simp [below]
  have hfew : below.length < 4294967296 := by decide
  obtain ⟨hall, -⟩ := drain_cases hmean hbelow hrows hfew none
  obtain ⟨hover, -⟩ := drain_cases htotal hbelow hrows hfew none
  have hnone : mean.firstOverflow? below = none := by decide
  have hsome : total.firstOverflow? below = some (some (.int 1)) := by decide
  rw [hnone] at hall
  rw [hsome] at hover
  obtain ⟨all, hdrain, htells⟩ := hall
  obtain ⟨-, hfails⟩ := hover
  have hkeys : mean.keys below = [some (.int 2), some (.int 1)] := by decide
  have hamount : total.amountOf below (some (.int 1)) = 4294967294 := by decide
  rw [hkeys] at htells
  rw [hamount] at hfails
  exact ⟨schema, below, all, mean, total, db, hmean, htotal, hbelow, hrows, hfew, hdrain, htells,
    by decide, hfails⟩

end Aggregate
end RowStore
