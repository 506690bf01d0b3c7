/-
# Merging by two indices

For `=`, two sorted blocks are merged by an index into each of them.  `Join.mergeEqual` says which
pairs come of it; here is the way there.  `turn` is one turn of the loop: the index of the smaller
row moves on, and where the two rows compare equal both indices move behind their runs, whose ends
are looked for by `runEnd`, and the runs are paired.

* `exists_merged`: the loop ends for any two blocks, with the pairs of `mergeEqual`;
* `Passed`: the rows behind the one index are beyond all that the other has passed, as long as the
  blocks are sorted;
* `mergeBlocks_in_order`: which pairs come of merging, in which order, and that no row is missed.
-/
import RowStore.Proofs.Join.Blocks
import Mathlib.Computability.StateTransition

namespace RowStore
namespace Join

open StateTransition (Reaches)

/-! ## 1. Turns -/

/-- The first place from `place` on whose row has another value in the field than `first`, or the
end of the block. -/
def runEnd (field : Nat) (first : Row) (block : List Row) (place : Nat) : Nat :=
  if h : place < block.length then
    if sameField field first block[place] then runEnd field first block (place + 1) else place
  else place
termination_by block.length - place

/-- Where merging stands: the places of the next rows, and the pairs that have been made. -/
structure Merging where
  outer : Nat
  inner : Nat
  output : List Row

/-- One turn, as long as there is a row on either side. -/
def turn (lf rf : Nat) (outer inner : List Row) (m : Merging) : Option Merging :=
  match outer[m.outer]?, inner[m.inner]? with
  | some o, some i => some <| match compareFields o lf i rf with
    | .lt => { m with outer := m.outer + 1 }
    | .gt => { m with inner := m.inner + 1 }
    | .eq =>
      let outerEnd := runEnd lf o outer (m.outer + 1)
      let innerEnd := runEnd rf i inner (m.inner + 1)
      ⟨outerEnd, innerEnd, m.output ++
        product (outer.extract m.outer outerEnd) (inner.extract m.inner innerEnd)⟩
  | _, _ => none

/-! ## 2. The end of a run -/

section Run

variable (field : Nat) (first : Row) (block : List Row)

theorem runEnd_eq (place : Nat) : runEnd field first block place =
    place + ((block.drop place).takeWhile (sameField field first)).length := by
  fun_induction runEnd field first block place with
  | case1 place h hsame ih =>
    rw [ih, List.drop_eq_getElem_cons h, List.takeWhile_cons_of_pos hsame, List.length_cons]
    omega
  | case2 place h hsame =>
    rw [List.drop_eq_getElem_cons h, List.takeWhile_cons_of_neg hsame]
    rfl
  | case3 place h =>
    rw [List.drop_eq_nil_of_le (Nat.not_lt.mp h)]
    rfl

/-- From the end of the run on stands what the block has without it. -/
theorem drop_runEnd (place : Nat) : block.drop (runEnd field first block place) =
    (block.drop place).dropWhile (sameField field first) := by
  have hfront := List.prefix_iff_eq_append.mp
    (List.takeWhile_prefix (l := block.drop place) (sameField field first))
  rw [List.drop_drop, ← runEnd_eq] at hfront
  exact List.append_cancel_left (hfront.trans List.takeWhile_append_dropWhile.symm)

variable {first block}

/-- The run between its places. -/
theorem extract_runEnd {start : Nat} {rest : List Row} (h : block.drop start = first :: rest) :
    block.extract start (runEnd field first block (start + 1)) =
      first :: rest.takeWhile (sameField field first) := by
  have hrest : block.drop (start + 1) = rest := by rw [← List.drop_drop, h]; rfl
  have hlength : runEnd field first block (start + 1) - start =
      (rest.takeWhile (sameField field first)).length + 1 := by
    rw [runEnd_eq, hrest]
    omega
  rw [List.extract_eq_take_drop, h, hlength, List.take_succ_cons,
    ← List.prefix_iff_eq_take.mp (List.takeWhile_prefix _)]

/-- What a loop that looks for the end of a run has to do: every row that it passes has the value of
the first one, and it stops at a row with another value or at the end of the block. -/
structure EndsRun (field : Nat) (first : Row) (block : List Row) (place stop : Nat) : Prop where
  le : place ≤ stop
  passed : ∀ row ∈ block.extract place stop, sameField field first row
  stops : ∀ row, block[stop]? = some row → ¬sameField field first row

theorem endsRun_runEnd (place : Nat) :
    EndsRun field first block place (runEnd field first block place) where
  le := by
    rw [runEnd_eq]
    exact Nat.le_add_right _ _
  passed row hrow := by
    rw [List.extract_eq_take_drop, runEnd_eq, Nat.add_sub_cancel_left,
      ← List.prefix_iff_eq_take.mp (List.takeWhile_prefix _)] at hrow
    exact List.mem_takeWhile_imp hrow
  stops row hrow := by
    have hstop := List.head?_dropWhile_not (sameField field first) (block.drop place)
    rw [← drop_runEnd, List.head?_drop, hrow] at hstop
    exact Bool.eq_false_iff.mp hstop

end Run

/-! ## 3. The end of the loop -/

section Turn

variable {lf rf : Nat} {outer inner : List Row} {m m' : Merging}

theorem drop_succ {block rest : List Row} {place : Nat} {row : Row}
    (h : block.drop place = row :: rest) : block.drop (place + 1) = rest := by
  rw [← List.drop_drop, h]
  rfl

theorem turn_of_nil (h : outer.drop m.outer = [] ∨ inner.drop m.inner = []) :
    turn lf rf outer inner m = none := by
  unfold turn
  rcases h with h | h
  · rw [← List.head?_drop, h]
    rfl
  · rw [← List.head?_drop (l := inner), h]
    cases outer[m.outer]? <;> rfl

variable (lf rf)

/-- What one turn does where rows are left on both sides. -/
theorem turn_of_cons {o i : Row} {ls rs : List Row} (ho : outer.drop m.outer = o :: ls)
    (hi : inner.drop m.inner = i :: rs) :
    turn lf rf outer inner m = some (match compareFields o lf i rf with
      | .lt => { m with outer := m.outer + 1 }
      | .gt => { m with inner := m.inner + 1 }
      | .eq => ⟨runEnd lf o outer (m.outer + 1), runEnd rf i inner (m.inner + 1), m.output ++
          product (o :: ls.takeWhile (sameField lf o)) (i :: rs.takeWhile (sameField rf i))⟩) := by
  have ho' : outer[m.outer]? = some o := by rw [← List.head?_drop, ho]; rfl
  have hi' : inner[m.inner]? = some i := by rw [← List.head?_drop, hi]; rfl
  simp only [turn, ho', hi', extract_runEnd lf ho, extract_runEnd rf hi]

/-- **The loop ends**, whatever the blocks are, and the pairs that it has made are those of
`mergeEqual`.  By induction along `mergeEqual`, each call of which is one turn. -/
theorem exists_merged {ls rs : List Row} (hls : outer.drop m.outer = ls)
    (hrs : inner.drop m.inner = rs) :
    ∃ last, Reaches (turn lf rf outer inner) m last ∧ turn lf rf outer inner last = none ∧
      last.output = m.output ++ mergeEqual lf rf ls rs := by
  fun_induction mergeEqual lf rf ls rs generalizing m with
  | case1 rs => exact ⟨m, .refl, turn_of_nil (.inl hls), (List.append_nil _).symm⟩
  | case2 ls => exact ⟨m, .refl, turn_of_nil (.inr hrs), (List.append_nil _).symm⟩
  | case3 o ls i rs hlt ih =>
    have hturn := turn_of_cons lf rf hls hrs
    rw [hlt] at hturn
    obtain ⟨last, hreach, hend, hout⟩ :=
      ih (m := { m with outer := m.outer + 1 }) (drop_succ hls) hrs
    exact ⟨last, .head hturn hreach, hend, hout⟩
  | case4 o ls i rs hgt ih =>
    have hturn := turn_of_cons lf rf hls hrs
    rw [hgt] at hturn
    obtain ⟨last, hreach, hend, hout⟩ :=
      ih (m := { m with inner := m.inner + 1 }) hls (drop_succ hrs)
    exact ⟨last, .head hturn hreach, hend, hout⟩
  | case5 o ls i rs heq ih =>
    have hturn := turn_of_cons lf rf hls hrs
    rw [heq] at hturn
    obtain ⟨last, hreach, hend, hout⟩ := ih (m := ⟨_, _, _⟩)
      ((drop_runEnd lf o outer (m.outer + 1)).trans (by rw [drop_succ hls]))
      ((drop_runEnd rf i inner (m.inner + 1)).trans (by rw [drop_succ hrs]))
    exact ⟨last, .head hturn hreach, hend, by rw [hout, List.append_assoc]⟩

end Turn

/-! ## 4. What the indices pass -/

/-- The rows in front of the one index are out of reach of those behind the other. -/
structure Passed (lf rf : Nat) (outer inner : List Row) (m : Merging) : Prop where
  outer_le : m.outer ≤ outer.length
  inner_le : m.inner ≤ inner.length
  outer_lt : ∀ o ∈ outer.take m.outer, ∀ i ∈ inner.drop m.inner, compareFields o lf i rf = .lt
  inner_gt : ∀ i ∈ inner.take m.inner, ∀ o ∈ outer.drop m.outer, compareFields o lf i rf = .gt

theorem passed_start (lf rf : Nat) (outer inner output : List Row) :
    Passed lf rf outer inner ⟨0, 0, output⟩ :=
  ⟨Nat.zero_le _, Nat.zero_le _, by simp, by simp⟩

section Passed

variable {lf rf rank : Nat} {outer inner : List Row} {m m' : Merging}

/-- Rows may be passed on either side if they are out of reach of what is left on the other. -/
theorem Passed.advance (h : Passed lf rf outer inner m) {os os' is is' : List Row}
    (ho : outer.drop m.outer = os ++ os') (hi : inner.drop m.inner = is ++ is')
    (hlt : ∀ o ∈ os, ∀ i ∈ is', compareFields o lf i rf = .lt)
    (hgt : ∀ i ∈ is, ∀ o ∈ os', compareFields o lf i rf = .gt) (output : List Row) :
    Passed lf rf outer inner ⟨m.outer + os.length, m.inner + is.length, output⟩ := by
  have hotake : outer.take (m.outer + os.length) = outer.take m.outer ++ os := by
    rw [List.take_add, ho, List.take_left]
  have hitake : inner.take (m.inner + is.length) = inner.take m.inner ++ is := by
    rw [List.take_add, hi, List.take_left]
  have hodrop : outer.drop (m.outer + os.length) = os' := by
    rw [← List.drop_drop, ho, List.drop_left]
  have hidrop : inner.drop (m.inner + is.length) = is' := by
    rw [← List.drop_drop, hi, List.drop_left]
  have holength := congrArg List.length ho
  have hilength := congrArg List.length hi
  rw [List.length_drop, List.length_append] at holength hilength
  have hole := h.outer_le
  have hile := h.inner_le
  refine ⟨by dsimp only; omega, by dsimp only; omega, ?_, ?_⟩
  · rw [hotake, hidrop]
    intro o hmem i hbehind
    rcases List.mem_append.mp hmem with hold | hnew
    · exact h.outer_lt o hold i (hi ▸ List.mem_append_right is hbehind)
    · exact hlt o hnew i hbehind
  · rw [hitake, hodrop]
    intro i hmem o hbehind
    rcases List.mem_append.mp hmem with hold | hnew
    · exact h.inner_gt i hold o (ho ▸ List.mem_append_right os hbehind)
    · exact hgt i hnew o hbehind

variable (hkl : ∀ o ∈ outer, HasKey rank lf o) (hkr : ∀ i ∈ inner, HasKey rank rf i)
  (hl : Sorted lf outer) (hr : Sorted rf inner)

include hkl hkr hl hr

/-- **One turn** passes only rows that are out of reach of what is left. -/
theorem Passed.turn (h : Passed lf rf outer inner m)
    (hturn : turn lf rf outer inner m = some m') : Passed lf rf outer inner m' := by
  cases hls : outer.drop m.outer with
  | nil =>
    rw [turn_of_nil (.inl hls)] at hturn
    cases hturn
  | cons o ls =>
    cases hrs : inner.drop m.inner with
    | nil =>
      rw [turn_of_nil (.inr hrs)] at hturn
      cases hturn
    | cons i rs =>
      have hos : (o :: ls).Sublist outer := hls ▸ List.drop_sublist _ _
      have his : (i :: rs).Sublist inner := hrs ▸ List.drop_sublist _ _
      have hko : ∀ o' ∈ o :: ls, HasKey rank lf o' := fun o' ho' => hkl o' (hos.subset ho')
      have hki : ∀ i' ∈ i :: rs, HasKey rank rf i' := fun i' hi' => hkr i' (his.subset hi')
      have hso : Sorted lf (o :: ls) := hl.sublist hos
      have hsi : Sorted rf (i :: rs) := hr.sublist his
      have horder := compareFields_eq (hko o List.mem_cons_self) (hki i List.mem_cons_self)
      rw [turn_of_cons lf rf hls hrs, Option.some.injEq] at hturn
      subst hturn
      cases hcompare : compareFields o lf i rf with
      | lt =>
        -- the outer row is less than the least inner row that is left
        rw [hcompare] at horder
        refine h.advance (show outer.drop m.outer = [o] ++ ls from hls)
          (show inner.drop m.inner = [] ++ i :: rs from hrs) ?_ (by simp) m.output
        intro o' ho' i' hi'
        obtain rfl := List.mem_singleton.mp ho'
        rw [compareFields_eq (hko _ List.mem_cons_self) (hki i' hi')]
        exact Std.TransCmp.lt_of_lt_of_isLE horder.symm (hsi.head_le i' hi')
      | gt =>
        -- the inner row is less than the least outer row that is left
        rw [hcompare] at horder
        refine h.advance (show outer.drop m.outer = [] ++ o :: ls from hls)
          (show inner.drop m.inner = [i] ++ rs from hrs) (by simp) ?_ m.output
        intro i' hi' o' ho'
        obtain rfl := List.mem_singleton.mp hi'
        rw [compareFields_eq (hko o' ho') (hki _ List.mem_cons_self)]
        exact Std.TransCmp.gt_of_isGE_of_gt (Std.OrientedCmp.isGE_of_isLE (hso.head_le o' ho'))
          horder.symm
      | eq =>
        -- the two runs have one value, and what follows either of them is greater
        rw [hcompare] at horder
        have horun := List.takeWhile_append_dropWhile (p := sameField lf o) (l := ls)
        have hirun := List.takeWhile_append_dropWhile (p := sameField rf i) (l := rs)
        have hoplace : runEnd lf o outer (m.outer + 1) =
            m.outer + (o :: ls.takeWhile (sameField lf o)).length := by
          rw [runEnd_eq, drop_succ hls, Nat.add_right_comm, List.length_cons, Nat.add_assoc]
        have hiplace : runEnd rf i inner (m.inner + 1) =
            m.inner + (i :: rs.takeWhile (sameField rf i)).length := by
          rw [runEnd_eq, drop_succ hrs, Nat.add_right_comm, List.length_cons, Nat.add_assoc]
        dsimp only
        rw [hoplace, hiplace]
        refine h.advance (by rw [hls, List.cons_append, horun])
          (by rw [hrs, List.cons_append, hirun]) ?_ ?_ _
        · intro o' ho' i' hi'
          rw [compareFields_eq (hko o' (((List.takeWhile_sublist _).cons_cons o).subset ho'))
            (hki i' (((List.dropWhile_sublist _).cons i).subset hi'))]
          exact lt_of_mem_run hko hki horder.symm hsi ho' hi'
        · intro i' hi' o' ho'
          rw [compareFields_eq (hko o' (((List.dropWhile_sublist _).cons o).subset ho'))
            (hki i' (((List.takeWhile_sublist _).cons_cons i).subset hi'))]
          exact gt_of_mem_run hko hki horder.symm hso ho' hi'

/-- **The whole loop** does so too.  By induction on its turns. -/
theorem Passed.reaches (h : Passed lf rf outer inner m)
    (hreach : Reaches (Join.turn lf rf outer inner) m m') : Passed lf rf outer inner m' := by
  induction hreach with
  | refl => exact h
  | tail _ hturn ih => exact ih.turn hkl hkr hl hr hturn

end Passed

/-! ## 5. Merging two blocks -/

/-- The loop has ended with one of the indices at the end of its block, so that every row there has
had its turn.  A row of the other block that has not is beyond all of them. -/
structure AllSeen (lf rf : Nat) (outer inner : List Row) (last : Merging) : Prop where
  ended : last.outer = outer.length ∨ last.inner = inner.length
  outer_rest : ∀ o ∈ outer.drop last.outer, ∀ i ∈ inner, compareFields o lf i rf = .gt
  inner_rest : ∀ i ∈ inner.drop last.inner, ∀ o ∈ outer, compareFields o lf i rf = .lt

theorem Passed.allSeen {lf rf : Nat} {outer inner : List Row} {last : Merging}
    (h : Passed lf rf outer inner last) (hend : Join.turn lf rf outer inner last = none) :
    AllSeen lf rf outer inner last := by
  have hole := h.outer_le
  have hile := h.inner_le
  cases hls : outer.drop last.outer with
  | nil =>
    have hall : last.outer = outer.length := le_antisymm hole (List.drop_eq_nil_iff.mp hls)
    have htake : outer.take last.outer = outer := by rw [hall, List.take_length]
    refine ⟨.inl hall, by simp [hls], fun i hi o ho => h.outer_lt o ?_ i hi⟩
    rwa [htake]
  | cons o ls =>
    cases hrs : inner.drop last.inner with
    | nil =>
      have hall : last.inner = inner.length := le_antisymm hile (List.drop_eq_nil_iff.mp hrs)
      have htake : inner.take last.inner = inner := by rw [hall, List.take_length]
      refine ⟨.inr hall, fun o ho i hi => h.inner_gt i ?_ o ho, by simp [hrs]⟩
      rwa [htake]
    | cons i rs =>
      rw [turn_of_cons lf rf hls hrs] at hend
      cases hend

/-- The block ascends on its field, by the comparison that joins make. -/
def Ascends (field : Nat) (block : List Row) : Prop :=
  block.Pairwise fun a b => (compareFields a field b field).isLE

theorem Ascends.sorted {rank field : Nat} {block : List Row} (h : Ascends field block)
    (hk : ∀ row ∈ block, HasKey rank field row) : Sorted field block :=
  h.imp_of_mem fun {a b} ha hb hle => by rwa [compareFields_eq (hk a ha) (hk b hb)] at hle

/-- **Merging two ascending blocks** of rows of two schemas whose join columns compare.  For `=`,
`>` and `>=` it makes the pairs that satisfy the condition by the outer row, then by the inner one;
for `<` and `<=` the same with the inner rows from the back.  For `=`, the loop over the indices
puts just these pairs behind what there is and comes to an end with no row missed, and the loops
that look for the ends of runs find them. -/
theorem mergeBlocks_in_order {c : JoinCondition} {outerSchema innerSchema : Schema}
    {left right : Column} {outer inner : List Row}
    (hleft : outerSchema.column? c.left = some left)
    (hright : innerSchema.column? c.right = some right)
    (hkinds : left.type.comparable right.type) (ho : ∀ o ∈ outer, o.schema = outerSchema)
    (hi : ∀ i ∈ inner, i.schema = innerSchema) (houter : Ascends c.left outer)
    (hinner : Ascends c.right inner) :
    (c.comparison = .eq ∨ c.comparison = .gt ∨ c.comparison = .ge →
      mergeBlocks c outer inner = nestedLoop c outer inner) ∧
    (c.comparison = .lt ∨ c.comparison = .le →
      mergeBlocks c outer inner = nestedLoop c outer inner.reverse) ∧
    (c.comparison = .eq →
      (∀ output, ∃ last, Reaches (turn c.left c.right outer inner) ⟨0, 0, output⟩ last ∧
        turn c.left c.right outer inner last = none ∧
        last.output = output ++ mergeBlocks c outer inner ∧
        AllSeen c.left c.right outer inner last) ∧
      ∀ first place,
        EndsRun c.left first outer place (runEnd c.left first outer place) ∧
        EndsRun c.right first inner place (runEnd c.right first inner place)) := by
  have hkl : ∀ o ∈ outer, HasKey left.type.rank c.left o := fun o hmem =>
    Row.hasKey (by rwa [ho o hmem])
  have hkr : ∀ i ∈ inner, HasKey left.type.rank c.right i := fun i hmem => by
    rw [DataType.rank_eq hkinds]
    exact Row.hasKey (by rwa [hi i hmem])
  have hsl := houter.sorted hkl
  have hsr := hinner.sorted hkr
  refine ⟨fun hc => ?_, fun hc => ?_, fun hc => ⟨fun output => ?_, fun first place => ?_⟩⟩
  · rw [mergeBlocks_eq (by rcases hc with hc | hc | hc <;> simp [hc]) hkl hkr hsl hsr, if_neg]
    rcases hc with hc | hc | hc <;> simp [hc]
  · rw [mergeBlocks_eq (by rcases hc with hc | hc <;> simp [hc]) hkl hkr hsl hsr, if_pos hc]
  · obtain ⟨last, hreach, hend, houtput⟩ :=
      exists_merged c.left c.right (m := ⟨0, 0, output⟩) (List.drop_zero (l := outer))
        (List.drop_zero (l := inner))
    have hpassed := (passed_start _ _ outer inner output).reaches hkl hkr hsl hsr hreach
    exact ⟨last, hreach, hend, by rw [houtput, mergeBlocks, hc], hpassed.allSeen hend⟩
  · exact ⟨endsRun_runEnd _ _, endsRun_runEnd _ _⟩

/-- Runs of two rows on either side, and an inner row at which the loop does not look. -/
theorem mergeBlocks_in_order_runs : ∃ (schema : Schema) (a b c x y z w : Row),
    [a, b, c].map (·.values) = [[.int 1, .int 1], [.int 1, .int 2], [.int 2, .int 3]] ∧
    [x, y, z, w].map (·.values) =
      [[.int 1, .int 4], [.int 1, .int 5], [.int 2, .int 6], [.int 3, .int 7]] ∧
    (∀ o ∈ [a, b, c], o.schema = schema) ∧ (∀ i ∈ [x, y, z, w], i.schema = schema) ∧
    Ascends 0 [a, b, c] ∧ Ascends 0 [x, y, z, w] ∧
    mergeBlocks ⟨0, .eq, 0⟩ [a, b, c] [x, y, z, w] = [a ++ x, a ++ y, b ++ x, b ++ y, c ++ z] ∧
    ∃ last, Reaches (turn 0 0 [a, b, c] [x, y, z, w]) ⟨0, 0, []⟩ last ∧
      turn 0 0 [a, b, c] [x, y, z, w] last = none ∧
      AllSeen 0 0 [a, b, c] [x, y, z, w] last := by
  let schema : Schema := ⟨[⟨"key", .int⟩, ⟨"n", .int⟩]⟩
  let row (key n : Int32) : Row := ⟨schema, [.int key, .int n], none, rfl⟩
  let outer : List Row := [row 1 1, row 1 2, row 2 3]
  let inner : List Row := [row 1 4, row 1 5, row 2 6, row 3 7]
  have houter : Ascends 0 outer := by unfold Ascends; decide
  have hinner : Ascends 0 inner := by unfold Ascends; decide
  have ho : ∀ o ∈ outer, o.schema = schema := by decide
  have hi : ∀ i ∈ inner, i.schema = schema := by decide
  have hkey : schema.column? 0 = some ⟨"key", .int⟩ := rfl
  obtain ⟨hfront, -, hloop⟩ :=
    mergeBlocks_in_order (c := ⟨0, .eq, 0⟩) hkey hkey rfl ho hi houter hinner
  obtain ⟨last, hreach, hend, -, hseen⟩ := (hloop rfl).1 []
  refine ⟨schema, _, _, _, _, _, _, _, rfl, rfl, ho, hi, houter, hinner, ?_, last, hreach, hend,
    hseen⟩
  rw [hfront (.inl rfl)]
  decide +kernel

end Join
end RowStore
