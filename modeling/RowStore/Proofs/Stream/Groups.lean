/-
# The groups of an aggregate

An aggregate finds its groups one row after another, and what it comes to can be said without their
order: there is a group for each value that occurs in the grouping column, and it keeps the number
of its rows and the sum, the least and the greatest of its numbers (`Tally.foldl_add`, `foldl_addTo`).
The sixty-four bits of a sum are enough for as many rows as thirty-two bits can number; up to there
no sum stays at an end, and rows may come in any order.

* `Accepts.rows_cases`: an aggregate that could be made either has its rows or overflows.
* `Accepts.rows_agree`: which of the two, and the rows apart from their order, does not depend on
  the order of the rows below.
-/
import RowStore.Proofs.Join.Blocks
import RowStore.Proofs.Stream.Aggregate
import Mathlib.Algebra.BigOperators.Group.List.Basic
import Mathlib.Algebra.Ring.Int.Defs
import Mathlib.Data.List.Induction

namespace RowStore

/-- Two outcomes agree: the same rows in some order, or overflows. -/
inductive Agree : Except Error (List Row) → Except Error (List Row) → Prop
  | rows {all all' : List Row} (h : all.Perm all') : Agree (.ok all) (.ok all')
  | overflow {f g : Summary} {n m : Int} : Agree (.error (.overflow f n)) (.error (.overflow g m))

theorem Agree.cases {x y : Except Error (List Row)} (h : Agree x y) :
    (∃ all all', x = .ok all ∧ y = .ok all' ∧ all.Perm all') ∨
      ∃ f n g m, x = .error (.overflow f n) ∧ y = .error (.overflow g m) := by
  cases h with
  | rows h => exact .inl ⟨_, _, rfl, rfl, h⟩
  | overflow => exact .inr ⟨_, _, _, _, rfl, rfl⟩

/-! ## 1. Lists -/

theorem min?_perm {xs ys : List Int} (h : xs.Perm ys) : xs.min? = ys.min? :=
  Option.ext fun n => by simp only [List.min?_eq_some_iff, h.mem_iff]

theorem max?_perm {xs ys : List Int} (h : xs.Perm ys) : xs.max? = ys.max? :=
  Option.ext fun n => by simp only [List.max?_eq_some_iff, h.mem_iff]

theorem min?_concat (xs : List Int) (n : Int) :
    (xs ++ [n]).min? = some ((xs.min?.map (min · n)).getD n) := by
  cases xs with
  | nil => rfl
  | cons x xs =>
    rw [List.cons_append, List.min?_cons', List.min?_cons', List.foldl_append]
    rfl

theorem max?_concat (xs : List Int) (n : Int) :
    (xs ++ [n]).max? = some ((xs.max?.map (max · n)).getD n) := by
  cases xs with
  | nil => rfl
  | cons x xs =>
    rw [List.cons_append, List.max?_cons', List.max?_cons', List.foldl_append]
    rfl

theorem eraseDups_concat {α : Type} [BEq α] [LawfulBEq α] (l : List α) (a : α) :
    (l ++ [a]).eraseDups = if a ∈ l then l.eraseDups else l.eraseDups ++ [a] := by
  rw [List.eraseDups_append]
  by_cases h : a ∈ l
  · simp [List.removeAll, h]
  · simp [List.removeAll, h, List.eraseDups_cons]

theorem nodup_eraseDups {α : Type} [BEq α] [LawfulBEq α] (l : List α) : l.eraseDups.Nodup := by
  induction l using List.reverseRecOn with
  | nil => exact List.nodup_nil
  | append_singleton l a ih =>
    rw [eraseDups_concat]
    split
    · exact ih
    · rename_i h
      rw [(List.perm_append_singleton a _).nodup_iff, List.nodup_cons, List.mem_eraseDups]
      exact ⟨h, ih⟩

theorem eraseDups_perm {α : Type} [BEq α] [LawfulBEq α] {xs ys : List α} (h : xs.Perm ys) :
    xs.eraseDups.Perm ys.eraseDups := by
  rw [List.perm_ext_iff_of_nodup (nodup_eraseDups xs) (nodup_eraseDups ys)]
  intro a
  rw [List.mem_eraseDups, List.mem_eraseDups, h.mem_iff]

/-- All results are there, or the first that fails. -/
theorem mapM_ok_iff {α β : Type} {f : α → Except Error β} {l : List α} {bs : List β} :
    l.mapM f = .ok bs ↔ l.map f = bs.map .ok := by
  induction l generalizing bs with
  | nil => cases bs <;> simp [pure, Except.pure]
  | cons a l ih =>
    rw [List.mapM_cons, List.map_cons]
    constructor
    · intro h
      obtain ⟨b, hb, h⟩ := exists_of_bind_ok h
      obtain ⟨bs', hbs, h⟩ := exists_of_bind_ok h
      cases h
      rw [List.map_cons, hb, ih.mp hbs]
    · intro h
      cases bs with
      | nil => cases h
      | cons b bs =>
        rw [List.map_cons, List.cons.injEq] at h
        rw [h.1, ih.mpr h.2]
        rfl

theorem exists_of_mapM_error {α β : Type} {f : α → Except Error β} {l : List α} {e : Error}
    (h : l.mapM f = .error e) : ∃ a ∈ l, f a = .error e := by
  induction l with
  | nil => cases h
  | cons a l ih =>
    rw [List.mapM_cons] at h
    cases ha : f a with
    | error e' =>
      rw [ha] at h
      cases h
      exact ⟨a, List.mem_cons_self, ha⟩
    | ok b =>
      rw [ha] at h
      cases hl : l.mapM f with
      | error e' =>
        rw [hl] at h
        cases h
        obtain ⟨a', ha', hf⟩ := ih hl
        exact ⟨a', List.mem_cons_of_mem _ ha', hf⟩
      | ok bs =>
        rw [hl] at h
        cases h

namespace Aggregate

/-! ## 2. What is kept of the values of a group -/

/-- The numbers among the values. -/
def numbers (vs : List Value) : List Int := vs.filterMap fun v => v.asInt?.map (·.toInt)

theorem natAbs_sum_numbers_le (vs : List Value) :
    (numbers vs).sum.natAbs ≤ vs.length * 2147483648 := by
  induction vs with
  | nil => simp [numbers]
  | cons v vs ih =>
    rw [List.length_cons]
    cases v with
    | text s =>
      have hsame : numbers (.text s :: vs) = numbers vs := rfl
      rw [hsame]
      exact Nat.le_trans ih (Nat.mul_le_mul_right _ (Nat.le_succ _))
    | int n =>
      have hcons : numbers (.int n :: vs) = n.toInt :: numbers vs := rfl
      have hlt := n.toInt_lt
      have hle := n.le_toInt
      rw [hcons, List.sum_cons]
      omega

/-- **What is kept of values**, as long as thirty-two bits can number them: how many there are, and
the sum, the least and the greatest of the numbers.  By induction from the end; no sum on the way
is cut off. -/
theorem Tally.foldl_add {vs : List Value} (hfew : vs.length < 4294967296) :
    vs.foldl Tally.add {} =
      ⟨vs.length, (numbers vs).sum, (numbers vs).min?, (numbers vs).max?⟩ := by
  induction vs using List.reverseRecOn with
  | nil => rfl
  | append_singleton vs v ih =>
    rw [List.length_append, List.length_singleton] at hfew
    have hbound := natAbs_sum_numbers_le (vs ++ [v])
    rw [List.length_append, List.length_singleton] at hbound
    have hnumbers : numbers (vs ++ [v]) = numbers vs ++ numbers [v] := List.filterMap_append ..
    rw [hnumbers, List.sum_append] at hbound
    rw [List.foldl_append, ih (by omega), List.length_append, hnumbers]
    cases v with
    | text s =>
      have hnone : numbers [.text s] = [] := rfl
      rw [hnone, List.append_nil]
      rfl
    | int n =>
      have hone : numbers [.int n] = [n.toInt] := rfl
      rw [hone, List.sum_singleton] at hbound
      have hfits : saturated ((numbers vs).sum + n.toInt) = (numbers vs).sum + n.toInt := by
        rw [saturated]
        omega
      rw [hone, min?_concat, max?_concat, List.sum_append, List.sum_singleton, ← hfits]
      rfl

theorem Tally.foldl_add_perm {vs ws : List Value} (h : vs.Perm ws)
    (hfew : vs.length < 4294967296) : vs.foldl Tally.add {} = ws.foldl Tally.add {} := by
  have hnumbers : (numbers vs).Perm (numbers ws) := h.filterMap _
  rw [foldl_add hfew, foldl_add (h.length_eq ▸ hfew), h.length_eq, hnumbers.sum_eq,
    min?_perm hnumbers, max?_perm hnumbers]

/-! ## 3. The groups -/

/-- The values of a group among values with those of their groups. -/
def valuesOf (entries : List (Option Value × Value)) (key : Option Value) : List Value :=
  (entries.filter (·.1 = key)).map (·.2)

/-- Each value of a group once, in the order in which they come, with what is kept for it. -/
def groupsOf (entries : List (Option Value × Value)) : Groups :=
  (entries.map (·.1)).eraseDups.map fun key => (key, (valuesOf entries key).foldl Tally.add {})

/-- Taking a value into account, where each group is there once. -/
theorem addTo_map {keys : List (Option Value)} (hkeys : keys.Nodup) (f : Option Value → Tally)
    (key : Option Value) (v : Value) :
    addTo key v (keys.map fun k => (k, f k)) =
      if key ∈ keys then keys.map fun k => (k, if k = key then (f k).add v else f k)
      else keys.map (fun k => (k, f k)) ++ [(key, Tally.add {} v)] := by
  induction keys with
  | nil => rfl
  | cons k keys ih =>
    obtain ⟨hk, hkeys⟩ := List.nodup_cons.mp hkeys
    rw [List.map_cons, addTo]
    by_cases hsame : k = key
    · subst hsame
      have hrest : keys.map (fun k' => (k', if k' = k then (f k').add v else f k')) =
          keys.map fun k' => (k', f k') :=
        List.map_congr_left fun k' hk' => by rw [if_neg fun he : k' = k => hk (he ▸ hk')]
      rw [if_pos rfl, if_pos List.mem_cons_self, List.map_cons, if_pos rfl, hrest]
    · rw [if_neg hsame, ih hkeys]
      have hmem : key ∈ k :: keys ↔ key ∈ keys := by
        rw [List.mem_cons]
        exact or_iff_right fun he => hsame he.symm
      simp only [hmem, List.map_cons, if_neg hsame]
      split <;> rfl

/-- **The groups** that are found one value after another. -/
theorem foldl_addTo (entries : List (Option Value × Value)) :
    entries.foldl (fun groups e => addTo e.1 e.2 groups) [] = groupsOf entries := by
  induction entries using List.reverseRecOn with
  | nil => rfl
  | append_singleton entries e ih =>
    obtain ⟨key, v⟩ := e
    have hvalues : ∀ k, valuesOf (entries ++ [(key, v)]) k =
        valuesOf entries k ++ if key = k then [v] else [] := by
      intro k
      rw [valuesOf, List.filter_append, List.map_append]
      by_cases hk : key = k
      · simp [valuesOf, hk]
      · simp [valuesOf, hk]
    have hadd := addTo_map (nodup_eraseDups (entries.map (·.1)))
      (fun k => (valuesOf entries k).foldl Tally.add {}) key v
    simp only [List.mem_eraseDups] at hadd
    rw [List.foldl_append, ih, List.foldl_cons, List.foldl_nil, groupsOf, groupsOf, hadd,
      List.map_append, List.map_singleton, eraseDups_concat]
    split
    · apply List.map_congr_left
      intro k _
      rw [hvalues]
      by_cases hk : key = k
      · rw [if_pos hk.symm, if_pos hk, List.foldl_append]
        rfl
      · rw [if_neg (Ne.symm hk), if_neg hk, List.append_nil]
    · rename_i hnew
      rw [List.map_append, List.map_singleton, hvalues, if_pos rfl]
      have hnone : valuesOf entries key = [] := by
        rw [valuesOf, List.map_eq_nil_iff, List.filter_eq_nil_iff]
        intro e he hkey
        exact hnew (List.mem_map.mpr ⟨e, he, of_decide_eq_true hkey⟩)
      rw [hnone]
      congr 1
      apply List.map_congr_left
      intro k hk
      have hne : key ≠ k := fun he => hnew (List.mem_eraseDups.mp (he ▸ hk))
      rw [hvalues, if_neg hne, List.append_nil]

theorem groupsOf_perm {entries entries' : List (Option Value × Value)}
    (h : entries.Perm entries') (hfew : entries.length < 4294967296) :
    (groupsOf entries).Perm (groupsOf entries') := by
  have hsame : ∀ key, (valuesOf entries key).foldl Tally.add {} =
      (valuesOf entries' key).foldl Tally.add {} := by
    intro key
    refine Tally.foldl_add_perm ((h.filter _).map _) (Nat.lt_of_le_of_lt ?_ hfew)
    rw [valuesOf, List.length_map]
    exact List.length_filter_le _ _
  rw [groupsOf, groupsOf]
  simp only [hsame]
  exact (eraseDups_perm (h.map (·.1))).map _

/-! ## 4. An aggregate that could be made -/

/-- An aggregate of rows of the schema is in order: its fields are there, and its own rows have the
value of the group, if there is grouping, and a number. -/
structure Accepts (a : Aggregate) (rows : Schema) : Prop where
  field : ∃ c, rows.column? a.field = some c
  group : (a.group = none ∧ ∃ result : Column, result.type = .int ∧ a.schema = ⟨[result]⟩) ∨
    ∃ g k, a.group = some g ∧ rows.column? g = some k ∧
      ∃ result : Column, result.type = .int ∧ a.schema = ⟨[k, result]⟩

/-- **An aggregate that could be made** is what it was told to be, over columns that are there. -/
theorem make_cases {rows : Schema} {field : Nat} {group : Option Nat} {summary : Summary}
    {a : Aggregate} (h : make rows field group summary = .ok a) :
    ∃ c, rows.column? field = some c ∧ summary.accepts c.type = true ∧ a.field = field ∧
      a.group = group ∧ a.summary = summary ∧
      ((group = none ∧ a.schema = ⟨[⟨c.name, .int⟩]⟩) ∨
        ∃ g k, group = some g ∧ rows.column? g = some k ∧ a.schema = ⟨[k, ⟨c.name, .int⟩]⟩) := by
  cases hc : rows.column? field with
  | none =>
    rw [make, hc] at h
    cases h
  | some c =>
    by_cases haccepts : summary.accepts c.type = true
    · simp only [make, hc, haccepts] at h
      cases group with
      | none =>
        cases h
        exact ⟨c, rfl, haccepts, rfl, rfl, rfl, .inl ⟨rfl, rfl⟩⟩
      | some g =>
        cases hk : rows.column? g with
        | none =>
          simp only [hk] at h
          cases h
        | some k =>
          simp only [hk] at h
          cases h
          exact ⟨c, rfl, haccepts, rfl, rfl, rfl, .inr ⟨g, k, rfl, hk, rfl⟩⟩
    · simp only [make, hc, haccepts] at h
      cases h

theorem make_accepts {rows : Schema} {field : Nat} {group : Option Nat} {summary : Summary}
    {a : Aggregate} (h : make rows field group summary = .ok a) : a.Accepts rows := by
  obtain ⟨c, hc, -, rfl, rfl, -, hgroup⟩ := make_cases h
  refine ⟨⟨c, hc⟩, ?_⟩
  rcases hgroup with ⟨hnone, hschema⟩ | ⟨g, k, hsome, hk, hschema⟩
  · exact .inl ⟨hnone, _, rfl, hschema⟩
  · exact .inr ⟨g, k, hsome, hk, _, rfl, hschema⟩

/-- The value of a row's group, if there is grouping, and the value that is summed up. -/
def entry (a : Aggregate) (row : Row) : Option Value × Value :=
  (a.group.map row.key, row.key a.field)

/-- The groups of rows. -/
def groups (a : Aggregate) (below : List Row) : Groups := groupsOf (below.map a.entry)

variable {a : Aggregate} {schema : Schema} {below below' : List Row}

theorem fieldOf_eq {row : Row} {field : Nat} {c : Column}
    (h : row.schema.column? field = some c) : fieldOf row field = .ok (row.key field) := by
  rw [fieldOf, (Row.hasKey h).value?.1]

theorem Accepts.addRow_eq (h : a.Accepts schema) {row : Row} (hrow : row.schema = schema)
    (groups : Groups) :
    a.addRow groups row = .ok (addTo (a.entry row).1 (a.entry row).2 groups) := by
  obtain ⟨⟨c, hc⟩, hgroup⟩ := h
  subst hrow
  rw [addRow, fieldOf_eq hc]
  rcases hgroup with ⟨hnone, -⟩ | ⟨g, k, hsome, hk, -⟩
  · rw [hnone, entry, hnone]
    rfl
  · rw [hsome, entry, hsome]
    simp only [fieldOf_eq hk]
    rfl

/-- **An aggregate comes to the groups** of its rows. -/
theorem Accepts.foldlM_addRow (h : a.Accepts schema) (hrows : ∀ row ∈ below, row.schema = schema) :
    below.foldlM a.addRow [] = .ok (a.groups below) := by
  have hfold : ∀ groups : Groups, below.foldlM a.addRow groups =
      .ok ((below.map a.entry).foldl (fun groups e => addTo e.1 e.2 groups) groups) := by
    intro groups
    induction below generalizing groups with
    | nil => rfl
    | cons row below ih =>
      rw [List.foldlM_cons, h.addRow_eq (hrows row List.mem_cons_self)]
      exact ih (fun row' hrow' => hrows row' (List.mem_cons_of_mem _ hrow')) _
  rw [hfold, foldl_addTo]
  rfl

theorem Accepts.rows_eq (h : a.Accepts schema) (hrows : ∀ row ∈ below, row.schema = schema) :
    a.rows below = a.finish (a.groups below) := by
  rw [rows, h.foldlM_addRow hrows]
  rfl

/-- The values of groups are values of rows. -/
theorem exists_row_of_mem_groups {group : Option Value × Tally} (h : group ∈ a.groups below) :
    ∃ row ∈ below, (a.entry row).1 = group.1 := by
  obtain ⟨key, hkey, rfl⟩ := List.mem_map.mp h
  rw [List.mem_eraseDups, List.map_map] at hkey
  obtain ⟨row, hrow, hentry⟩ := List.mem_map.mp hkey
  exact ⟨row, hrow, hentry⟩

/-- The value of a row's group and a number are a row of the aggregate. -/
theorem Accepts.admits (h : a.Accepts schema) {row : Row} (hrow : row.schema = schema)
    (n : Int32) : a.schema.admits ((a.entry row).1.toList ++ [.int n]) := by
  subst hrow
  rcases h.group with ⟨hnone, result, hint, hschema⟩ | ⟨g, k, hsome, hk, result, hint, hschema⟩
  · rw [hschema, entry, hnone]
    simp [Schema.admits, Schema.admits.go, Value.fits, hint]
  · obtain ⟨v, hv, hfits⟩ := Schema.admits_go_getElem? row.fits hk
    have hkey : row.key g = v := by rw [Row.key, Row.value?, hv, Option.getD_some]
    have hnumber : (Value.int n).fits result.type = true := by rw [hint]; rfl
    rw [hschema, entry, hsome, Option.map_some, hkey]
    simp [Schema.admits, Schema.admits.go, hnumber, hfits]

/-- A group has its row, or overflows. -/
theorem Accepts.finishGroup_cases (h : a.Accepts schema)
    (hrows : ∀ row ∈ below, row.schema = schema) {group : Option Value × Tally}
    (hgroup : group ∈ a.groups below) :
    (∃ row, a.finishGroup group = .ok row) ∨
      ∃ n, a.finishGroup group = .error (.overflow a.summary n) := by
  obtain ⟨row, hrow, hkey⟩ := exists_row_of_mem_groups hgroup
  obtain ⟨key, tally⟩ := group
  obtain rfl : (a.entry row).1 = key := hkey
  rw [finishGroup, Tally.finish]
  by_cases hfits : fitsWord (tally.result a.summary) = true
  · have hadmits := h.admits (hrows row hrow) (Int32.ofInt (tally.result a.summary))
    refine .inl ⟨⟨a.schema, _, none, hadmits⟩, ?_⟩
    simp only [if_pos hfits]
    exact dif_pos hadmits
  · refine .inr ⟨tally.result a.summary, ?_⟩
    simp only [if_neg hfits]
    rfl

/-! ## 5. The rows -/

/-- **An aggregate has its rows, or one of its groups overflows.** -/
theorem Accepts.rows_cases (h : a.Accepts schema) (hrows : ∀ row ∈ below, row.schema = schema) :
    (∃ all, a.rows below = .ok all) ∨ ∃ n, a.rows below = .error (.overflow a.summary n) := by
  rw [h.rows_eq hrows]
  cases hfinish : a.finish (a.groups below) with
  | ok all => exact .inl ⟨all, rfl⟩
  | error e =>
    obtain ⟨group, hgroup, herror⟩ := exists_of_mapM_error hfinish
    rcases h.finishGroup_cases hrows hgroup with ⟨row, hok⟩ | ⟨n, hover⟩
    · rw [hok] at herror
      cases herror
    · rw [hover] at herror
      cases herror
      exact .inr ⟨n, rfl⟩

/-- Groups in another order have the same rows, and overflow if these do. -/
theorem finish_perm {groups groups' : Groups} (h : groups.Perm groups') {all : List Row}
    (hall : a.finish groups = .ok all) : ∃ all', a.finish groups' = .ok all' ∧ all.Perm all' := by
  have hmap : groups.map a.finishGroup = all.map .ok := mapM_ok_iff.mp hall
  have hperm : (all.map .ok).Perm (groups'.map a.finishGroup) := hmap ▸ h.map _
  cases hall' : a.finish groups' with
  | ok all' =>
    have hmap' : groups'.map a.finishGroup = all'.map .ok := mapM_ok_iff.mp hall'
    rw [hmap', List.map_perm_map_iff fun _ _ => Except.ok.inj] at hperm
    exact ⟨all', rfl, hperm⟩
  | error e =>
    obtain ⟨group, hgroup, herror⟩ := exists_of_mapM_error hall'
    obtain ⟨row, -, hrow⟩ := List.mem_map.mp (hperm.mem_iff.mpr (List.mem_map_of_mem hgroup))
    rw [herror] at hrow
    cases hrow

/-- **The order of the rows does not matter** to an aggregate, as long as thirty-two bits can number
them: neither to its rows, but for their order, nor to whether it overflows. -/
theorem Accepts.rows_agree (h : a.Accepts schema) (hrows : ∀ row ∈ below, row.schema = schema)
    (hperm : below.Perm below') (hfew : below.length < 4294967296) :
    Agree (a.rows below) (a.rows below') := by
  have hrows' : ∀ row ∈ below', row.schema = schema := fun row hrow =>
    hrows row (hperm.mem_iff.mpr hrow)
  have hgroups : (a.groups below).Perm (a.groups below') :=
    groupsOf_perm (hperm.map _) (by rwa [List.length_map])
  rcases h.rows_cases hrows with ⟨all, hall⟩ | ⟨n, hover⟩
  · have hfinish := hall
    rw [h.rows_eq hrows] at hfinish
    obtain ⟨all', hall', hsame⟩ := finish_perm hgroups hfinish
    rw [hall, h.rows_eq hrows', hall']
    exact .rows hsame
  · rcases h.rows_cases hrows' with ⟨all', hall'⟩ | ⟨m, hover'⟩
    · rw [h.rows_eq hrows'] at hall'
      obtain ⟨all, hall, -⟩ := finish_perm hgroups.symm hall'
      rw [← h.rows_eq hrows, hover] at hall
      cases hall
    · rw [hover, hover']
      exact .overflow

end Aggregate
end RowStore
