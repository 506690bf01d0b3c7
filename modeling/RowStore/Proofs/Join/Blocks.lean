/-
# Joining block by block

A join cuts both sides into blocks and merges each outer block with every inner one.  What it hands
out is written down here as a function of the two lists (`Join.rows`), with the capacities of the
blocks.  It depends on these in its order only.

* `Schema.column?_hasKey`: the rows of a schema have the fields that a join of it compares.
* `make_accepts`: what is known of a join that could be made.
* `rows_perm`: a join hands out the pairs of the nested loop.
-/
import RowStore.Stream.Join
import RowStore.Proofs.Join.Merge

namespace RowStore

/-! ## 1. The fields of a schema -/

/-- The rank of the values of the type. -/
def DataType.rank : DataType → Nat
  | int => 0
  | text _ => 1

theorem DataType.rank_eq {s t : DataType} (h : s.comparable t) : s.rank = t.rank := by
  cases s <;> cases t <;> first | rfl | cases h

theorem Value.rank_of_fits {v : Value} {t : DataType} (h : v.fits t) : v.rank = t.rank := by
  cases v <;> cases t <;> first | rfl | cases h

/-- Each column has a value, and it fits. -/
theorem Schema.admits_go_getElem? {columns : List Column} {values : List Value} {field : Nat}
    {c : Column} (h : admits.go columns values) (hc : columns[field]? = some c) :
    ∃ v, values[field]? = some v ∧ v.fits c.type := by
  fun_induction admits.go columns values generalizing field with
  | case1 => simp at hc
  | case2 c' columns v values ih =>
    rw [Bool.and_eq_true] at h
    cases field with
    | zero =>
      obtain rfl : c' = c := Option.some.inj hc
      exact ⟨v, rfl, h.1⟩
    | succ field => exact ih h.2 hc
  | case3 => simp at h

/-- The rows of a schema have a value of the column's kind. -/
theorem Row.hasKey {row : Row} {field : Nat} {c : Column} (h : row.schema.column? field = some c) :
    HasKey c.type.rank field row := by
  obtain ⟨v, hv, hfits⟩ := Schema.admits_go_getElem? row.fits h
  exact ⟨v, hv, Value.rank_of_fits hfits⟩

namespace Join

/-! ## 2. A join that could be made -/

/-- A join of rows of the two schemas is in order: it can be merged, its fields are there and
compare, and a block on either side holds a row. -/
structure Accepts (join : Join) (outer inner : Schema) : Prop where
  comparison : join.condition.comparison ≠ .ne ∧ join.condition.comparison ≠ .like
  columns : ∃ l r, outer.column? join.condition.left = some l ∧
    inner.column? join.condition.right = some r ∧ l.type.comparable r.type
  outer_pos : 0 < join.outerCapacity
  inner_pos : 0 < join.innerCapacity

theorem column_ok {schema : Schema} {field : Nat} {c : Column} (h : column schema field = .ok c) :
    schema.column? field = some c := by
  unfold column at h
  split at h
  · rename_i heq
    cases h
    exact heq
  · cases h

theorem blockCapacity_pos {budget capacity : Nat} {schema : Schema}
    (h : blockCapacity budget schema = .ok capacity) : 0 < capacity := by
  simp only [blockCapacity] at h
  split at h
  · cases h
  · rename_i hpos
    cases h
    exact Nat.pos_of_ne_zero hpos

/-- **What is known of a join that could be made.** -/
theorem make_accepts {condition : JoinCondition} {outer inner : Schema} {budget : Nat} {join : Join}
    (h : make condition outer inner budget = .ok join) :
    join.condition = condition ∧ join.Accepts outer inner := by
  unfold make at h
  split at h
  · cases h
  rename_i hcomparison
  obtain ⟨l, hl, h⟩ := exists_of_bind_ok h
  obtain ⟨r, hr, h⟩ := exists_of_bind_ok h
  split at h
  · cases h
  rename_i hkinds
  obtain ⟨outerCapacity, ho, h⟩ := exists_of_bind_ok h
  obtain ⟨innerCapacity, hi, h⟩ := exists_of_bind_ok h
  cases h
  have hcomparable : l.type.comparable r.type := by simpa using hkinds
  exact ⟨rfl, not_or.mp hcomparison, ⟨l, r, column_ok hl, column_ok hr, hcomparable⟩,
    blockCapacity_pos ho, blockCapacity_pos hi⟩

/-! ## 3. Blocks -/

/-- The rows in blocks of the capacity, the last of them shorter. -/
def blocks (capacity : Nat) (rows : List Row) : List (List Row) :=
  if capacity = 0 ∨ rows = [] then []
  else rows.take capacity :: blocks capacity (rows.drop capacity)
termination_by rows.length
decreasing_by
  rename_i h
  have := List.length_pos_of_ne_nil (not_or.mp h).2
  rw [List.length_drop]
  omega

variable {capacity : Nat} {rs : List Row}

@[simp] theorem blocks_nil (capacity : Nat) : blocks capacity [] = [] := by
  rw [blocks, if_pos (.inr rfl)]

theorem blocks_cons (hpos : 0 < capacity) (hne : rs ≠ []) :
    blocks capacity rs = rs.take capacity :: blocks capacity (rs.drop capacity) := by
  rw [blocks, if_neg (not_or.mpr ⟨hpos.ne', hne⟩)]

theorem flatten_blocks (hpos : 0 < capacity) (rs : List Row) :
    (blocks capacity rs).flatten = rs := by
  fun_induction blocks capacity rs with
  | case1 rs h => rw [List.flatten_nil, h.resolve_left hpos.ne']
  | case2 rs h ih => rw [List.flatten_cons, ih, List.take_append_drop]

theorem subset_of_mem_blocks (hpos : 0 < capacity) {b : List Row} (h : b ∈ blocks capacity rs) :
    b ⊆ rs := by
  intro row hrow
  rw [← flatten_blocks hpos rs]
  exact List.mem_flatten.mpr ⟨b, h, hrow⟩

/-! ## 4. The rows of a join -/

/-- A sorted outer block with all inner rows, block by block. -/
def blockRows (join : Join) (block inner : List Row) : List Row :=
  (blocks join.innerCapacity inner).flatMap fun b =>
    mergeBlocks join.condition block (sortBlock join.condition.right b)

/-- All that a join hands out. -/
def rows (join : Join) (outer inner : List Row) : List Row :=
  (blocks join.outerCapacity outer).flatMap fun b =>
    join.blockRows (sortBlock join.condition.left b) inner

@[simp] theorem mergeBlocks_nil_left (c : JoinCondition) (rs : List Row) :
    mergeBlocks c [] rs = [] := by
  unfold mergeBlocks
  split <;> simp [mergeEqual, mergeRuns]

@[simp] theorem mergeBlocks_nil_right (c : JoinCondition) (ls : List Row) :
    mergeBlocks c ls [] = [] := by
  unfold mergeBlocks
  split <;> cases ls <;> simp [mergeEqual, mergeRuns]

@[simp] theorem blockRows_nil_left (join : Join) (inner : List Row) :
    join.blockRows [] inner = [] := by
  simp [blockRows]

@[simp] theorem blockRows_nil_right (join : Join) (block : List Row) :
    join.blockRows block [] = [] := by
  simp [blockRows]

@[simp] theorem rows_nil_left (join : Join) (inner : List Row) : join.rows [] inner = [] := by
  simp [rows]

/-- The first inner block, then the others. -/
theorem blockRows_eq {join : Join} (hpos : 0 < join.innerCapacity) (block inner : List Row) :
    join.blockRows block inner =
      mergeBlocks join.condition block
          (sortBlock join.condition.right (inner.take join.innerCapacity)) ++
        join.blockRows block (inner.drop join.innerCapacity) := by
  by_cases hinner : inner = []
  · simp [hinner, sortBlock]
  · rw [blockRows, blocks_cons hpos hinner, List.flatMap_cons]
    rfl

/-- The first outer block, then the others. -/
theorem rows_eq {join : Join} (hpos : 0 < join.outerCapacity) (outer inner : List Row) :
    join.rows outer inner =
      join.blockRows (sortBlock join.condition.left (outer.take join.outerCapacity)) inner ++
        join.rows (outer.drop join.outerCapacity) inner := by
  by_cases houter : outer = []
  · simp [houter, sortBlock]
  · rw [rows, blocks_cons hpos houter, List.flatMap_cons]
    rfl

/-- The nested loop may be run for the inner rows part by part. -/
theorem flatMap_inner_perm {c : JoinCondition} {outer : List Row} {parts : List (List Row)}
    {f : List Row → List Row} (h : ∀ b ∈ parts, (f b).Perm (nestedLoop c outer b)) :
    (parts.flatMap f).Perm (nestedLoop c outer parts.flatten) := by
  induction parts with
  | nil => simp [nestedLoop]
  | cons b parts ih =>
    obtain ⟨hb, hparts⟩ := List.forall_mem_cons.mp h
    exact (hb.append (ih hparts)).trans (nestedLoop_append_right c outer b parts.flatten).symm

/-- So may it for the outer ones. -/
theorem flatMap_outer_perm {c : JoinCondition} {inner : List Row} {parts : List (List Row)}
    {f : List Row → List Row} (h : ∀ b ∈ parts, (f b).Perm (nestedLoop c b inner)) :
    (parts.flatMap f).Perm (nestedLoop c parts.flatten inner) := by
  induction parts with
  | nil => exact List.Perm.refl _
  | cons b parts ih =>
    obtain ⟨hb, hparts⟩ := List.forall_mem_cons.mp h
    rw [List.flatMap_cons, List.flatten_cons, nestedLoop_append_left]
    exact hb.append (ih hparts)

/-- An outer block hands out its pairs of the nested loop. -/
theorem blockRows_perm {join : Join} {outerSchema innerSchema : Schema} {block inner : List Row}
    (h : join.Accepts outerSchema innerSchema) (hb : ∀ o ∈ block, o.schema = outerSchema)
    (hi : ∀ i ∈ inner, i.schema = innerSchema) :
    (join.blockRows (sortBlock join.condition.left block) inner).Perm
      (nestedLoop join.condition block inner) := by
  obtain ⟨l, r, hl, hr, hkinds⟩ := h.columns
  have hkb : ∀ o ∈ block, HasKey l.type.rank join.condition.left o := fun o hmem =>
    Row.hasKey (by rwa [hb o hmem])
  have hki : ∀ i ∈ inner, HasKey l.type.rank join.condition.right i := fun i hmem => by
    rw [DataType.rank_eq hkinds]
    exact Row.hasKey (by rwa [hi i hmem])
  have hmerge : ∀ b ∈ blocks join.innerCapacity inner,
      (mergeBlocks join.condition (sortBlock join.condition.left block)
        (sortBlock join.condition.right b)).Perm (nestedLoop join.condition block b) :=
    fun b hb' => mergeBlocks_sorted_perm h.comparison hkb
      (fun i hmem => hki i (subset_of_mem_blocks h.inner_pos hb' hmem))
  have hinner := flatMap_inner_perm hmerge
  rwa [flatten_blocks h.inner_pos] at hinner

/-- **A join hands out the pairs of the nested loop**, whatever its capacities are. -/
theorem rows_perm {join : Join} {outerSchema innerSchema : Schema} {outer inner : List Row}
    (h : join.Accepts outerSchema innerSchema) (ho : ∀ o ∈ outer, o.schema = outerSchema)
    (hi : ∀ i ∈ inner, i.schema = innerSchema) :
    (join.rows outer inner).Perm (nestedLoop join.condition outer inner) := by
  have hblock : ∀ b ∈ blocks join.outerCapacity outer,
      (join.blockRows (sortBlock join.condition.left b) inner).Perm
        (nestedLoop join.condition b inner) :=
    fun b hb => blockRows_perm h
      (fun o hmem => ho o (subset_of_mem_blocks h.outer_pos hb hmem)) hi
  have houter := flatMap_outer_perm hblock
  rwa [flatten_blocks h.outer_pos] at houter

/-! ## 5. How many rows there are -/

theorem length_product (ls rs : List Row) : (product ls rs).length = ls.length * rs.length := by
  simp [product, List.length_flatMap]

theorem length_run (p : Row → Bool) (l : Row) (ls : List Row) :
    (l :: ls.takeWhile p).length + (ls.dropWhile p).length = (l :: ls).length := by
  rw [← List.length_append, List.cons_append, List.takeWhile_append_dropWhile]

theorem length_mergeEqual_le (lf rf : Nat) (ls rs : List Row) :
    (mergeEqual lf rf ls rs).length ≤ ls.length * rs.length := by
  fun_induction mergeEqual lf rf ls rs with
  | case1 rs => simp
  | case2 ls => simp
  | case3 l ls r rs hlt ih =>
    exact Nat.le_trans ih (Nat.mul_le_mul_right _ (Nat.le_succ _))
  | case4 l ls r rs hgt ih =>
    exact Nat.le_trans ih (Nat.mul_le_mul_left _ (Nat.le_succ _))
  | case5 l ls r rs heq ih =>
    have hl := length_run (sameField lf l) l ls
    have hr := length_run (sameField rf r) r rs
    rw [List.length_append, length_product, ← hl, ← hr, Nat.add_mul]
    exact Nat.add_le_add (Nat.mul_le_mul_left _ (Nat.le_add_right _ _))
      (Nat.le_trans ih (Nat.mul_le_mul_left _ (Nat.le_add_left _ _)))

/-- Merging makes no more pairs than there are. -/
theorem length_mergeBlocks_le (c : JoinCondition) (ls rs : List Row) :
    (mergeBlocks c ls rs).length ≤ ls.length * rs.length := by
  have hruns : ∀ is : List Row, (mergeRuns c ls is).length ≤ ls.length * is.length := by
    intro is
    induction ls with
    | nil => exact Nat.zero_le _
    | cons l ls ih =>
      have htake := (List.takeWhile_sublist (c.holds l) (l := is)).length_le
      rw [mergeRuns, List.flatMap_cons, List.length_append, List.length_map, List.length_cons,
        Nat.succ_mul, Nat.add_comm]
      exact Nat.add_le_add ih htake
  unfold mergeBlocks
  split
  · exact length_mergeEqual_le _ _ _ _
  · exact hruns rs
  · exact hruns rs
  · simpa using hruns rs.reverse
  · simpa using hruns rs.reverse
  · exact Nat.zero_le _
  · exact Nat.zero_le _

/-- What each part has, the whole has. -/
theorem length_flatMap_le {parts : List (List Row)} {f : List Row → List Row} {n : Nat}
    (h : ∀ b ∈ parts, (f b).length ≤ b.length * n) :
    (parts.flatMap f).length ≤ parts.flatten.length * n := by
  induction parts with
  | nil => exact Nat.zero_le _
  | cons b parts ih =>
    obtain ⟨hb, hparts⟩ := List.forall_mem_cons.mp h
    rw [List.flatMap_cons, List.length_append, List.flatten_cons, List.length_append, Nat.add_mul]
    exact Nat.add_le_add hb (ih hparts)

theorem length_blockRows_le {join : Join} (hpos : 0 < join.innerCapacity) (block inner : List Row) :
    (join.blockRows block inner).length ≤ inner.length * block.length := by
  have hmerge : ∀ b ∈ blocks join.innerCapacity inner, (mergeBlocks join.condition block
      (sortBlock join.condition.right b)).length ≤ b.length * block.length := by
    intro b hb
    have hle := length_mergeBlocks_le join.condition block (sortBlock join.condition.right b)
    rwa [length_sortBlock, Nat.mul_comm] at hle
  have hall := length_flatMap_le hmerge
  rwa [flatten_blocks hpos] at hall

theorem length_rows_le {join : Join} (ho : 0 < join.outerCapacity) (hi : 0 < join.innerCapacity)
    (outer inner : List Row) : (join.rows outer inner).length ≤ outer.length * inner.length := by
  have hblock : ∀ b ∈ blocks join.outerCapacity outer,
      (join.blockRows (sortBlock join.condition.left b) inner).length ≤
        b.length * inner.length := by
    intro b hb
    have hle := length_blockRows_le hi (sortBlock join.condition.left b) inner
    rwa [length_sortBlock, Nat.mul_comm] at hle
  have hall := length_flatMap_le hblock
  rwa [flatten_blocks ho] at hall

end Join
end RowStore
