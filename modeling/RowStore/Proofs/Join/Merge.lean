/-
# Merging sorted blocks is the nested loop

What two blocks have to give is said by the nested loop: each outer row meets every inner one.
Merging leaves out most of these pairs.  That is right since the blocks are sorted: the inner rows
that satisfy the condition with an outer row stand together at one end, or in one run.

* `mergeBlocks_eq`: merging gives the pairs of the nested loop, in its order, or with the inner
  rows from the back.
-/
import RowStore.Proofs.Join.Order
import Mathlib.Data.List.Perm.Basic
import Mathlib.Data.List.TakeWhile

namespace RowStore

/-! ## 1. The front of a list -/

section Front

variable {α : Type} {p : α → Bool} {l : List α}

/-- What is taken from the front is all there is, if whatever stands before a hit is a hit. -/
theorem takeWhile_eq_filter (h : l.Pairwise fun a b => p b → p a) : l.takeWhile p = l.filter p := by
  induction l with
  | nil => rfl
  | cons a l ih =>
    obtain ⟨ha, hl⟩ := List.pairwise_cons.mp h
    by_cases hp : p a
    · rw [List.takeWhile_cons_of_pos hp, List.filter_cons_of_pos hp, ih hl]
    · have hnone : l.filter p = [] := List.filter_eq_nil_iff.mpr fun b hb hpb => hp (ha b hb hpb)
      rw [List.takeWhile_cons_of_neg hp, List.filter_cons_of_neg hp, hnone]

theorem not_of_mem_dropWhile (h : l.Pairwise fun a b => p b → p a) :
    ∀ x ∈ l.dropWhile p, ¬p x := by
  induction l with
  | nil => exact fun x hx => absurd hx List.not_mem_nil
  | cons a l ih =>
    obtain ⟨ha, hl⟩ := List.pairwise_cons.mp h
    by_cases hp : p a
    · rw [List.dropWhile_cons_of_pos hp]
      exact ih hl
    · rw [List.dropWhile_cons_of_neg hp]
      intro x hx hpx
      rcases List.mem_cons.mp hx with rfl | hx
      · exact hp hpx
      · exact hp (ha x hx hpx)

end Front

namespace Comparison

variable {c : Comparison} {a b b' : Value}

/-- What is greater than a value is greater than those below it. -/
theorem accepts_below (hc : c = .gt ∨ c = .ge) (h : (Value.order b b').isLE)
    (hacc : c.accepts (Value.order a b')) : c.accepts (Value.order a b) := by
  have hge : (Value.order b' b).isGE := Std.OrientedCmp.isGE_of_isLE h
  rcases hc with rfl | rfl
  · rw [accepts, beq_iff_eq] at hacc ⊢
    exact Std.TransCmp.gt_of_gt_of_isGE hacc hge
  · rw [accepts, bne_iff_ne, ne_eq, ← Ordering.isGE_iff_ne_lt] at hacc ⊢
    exact Std.TransCmp.isGE_trans hacc hge

/-- What is less than a value is less than those above it. -/
theorem accepts_above (hc : c = .lt ∨ c = .le) (h : (Value.order b b').isLE)
    (hacc : c.accepts (Value.order a b)) : c.accepts (Value.order a b') := by
  rcases hc with rfl | rfl
  · rw [accepts, beq_iff_eq] at hacc ⊢
    exact Std.TransCmp.lt_of_lt_of_isLE hacc h
  · rw [accepts, bne_iff_ne, ne_eq, ← Ordering.isLE_iff_ne_gt] at hacc ⊢
    exact Std.TransCmp.isLE_trans hacc h

end Comparison

namespace Join

/-! ## 2. The nested loop -/

/-- Each outer row with every inner one that satisfies the condition with it. -/
def nestedLoop (c : JoinCondition) (outer inner : List Row) : List Row :=
  outer.flatMap fun o => (inner.filter (c.holds o)).map (o ++ ·)

variable {c : JoinCondition} {os os' is is' : List Row}

theorem nestedLoop_append_left (c : JoinCondition) (os os' is : List Row) :
    nestedLoop c (os ++ os') is = nestedLoop c os is ++ nestedLoop c os' is :=
  List.flatMap_append

theorem nestedLoop_append_right (c : JoinCondition) (os is is' : List Row) :
    (nestedLoop c os (is ++ is')).Perm (nestedLoop c os is ++ nestedLoop c os is') := by
  simp only [nestedLoop, List.filter_append, List.map_append]
  exact (List.flatMap_append_perm _ _ _).symm

/-- The order of the rows on either side only changes that of the pairs. -/
theorem nestedLoop_perm (ho : os.Perm os') (hi : is.Perm is') :
    (nestedLoop c os is).Perm (nestedLoop c os' is') :=
  ho.flatMap fun _ _ => (hi.filter _).map _

/-! ## 3. Runs from one end -/

variable {rank : Nat} {ls rs : List Row}

/-- Merging from the front.  A row that satisfies the condition has only such rows before it. -/
theorem mergeRuns_front (hc : c.comparison = .gt ∨ c.comparison = .ge)
    (hkl : ∀ l ∈ ls, HasKey rank c.left l) (hkr : ∀ r ∈ rs, HasKey rank c.right r)
    (hr : Sorted c.right rs) : mergeRuns c ls rs = nestedLoop c ls rs := by
  have hlike : c.comparison ≠ .like := by rcases hc with h | h <;> simp [h]
  refine List.flatMap_congr fun l hl => ?_
  rw [takeWhile_eq_filter]
  refine hr.imp_of_mem fun {a b} ha hb hle hacc => ?_
  rw [holds_eq hlike (hkl l hl) (hkr b hb)] at hacc
  rw [holds_eq hlike (hkl l hl) (hkr a ha)]
  exact Comparison.accepts_below hc hle hacc

/-- Merging from the back. -/
theorem mergeRuns_back (hc : c.comparison = .lt ∨ c.comparison = .le)
    (hkl : ∀ l ∈ ls, HasKey rank c.left l) (hkr : ∀ r ∈ rs, HasKey rank c.right r)
    (hr : Sorted c.right rs) : mergeRuns c ls rs.reverse = nestedLoop c ls rs.reverse := by
  have hlike : c.comparison ≠ .like := by rcases hc with h | h <;> simp [h]
  refine List.flatMap_congr fun l hl => ?_
  rw [takeWhile_eq_filter]
  refine List.pairwise_reverse.mpr (hr.imp_of_mem fun {a b} ha hb hle hacc => ?_)
  rw [holds_eq hlike (hkl l hl) (hkr a ha)] at hacc
  rw [holds_eq hlike (hkl l hl) (hkr b hb)]
  exact Comparison.accepts_above hc hle hacc

/-! ## 4. Equal runs -/

/-- The head of a sorted list is the least. -/
theorem Sorted.head_le {field : Nat} {l : Row} (h : Sorted field (l :: ls)) :
    ∀ x ∈ l :: ls, (Value.order (l.key field) (x.key field)).isLE := by
  intro x hx
  rcases List.mem_cons.mp hx with rfl | hx
  · exact Std.ReflCmp.isLE_rfl
  · exact (List.pairwise_cons.mp h).1 x hx

section Run

variable {field : Nat} {l : Row} (hk : ∀ x ∈ l :: ls, HasKey rank field x)

include hk

theorem sameField_iff {x : Row} (hx : x ∈ ls) :
    sameField field l x ↔ Value.order (l.key field) (x.key field) = .eq := by
  rw [sameField, beq_iff_eq,
    compareFields_eq (hk l List.mem_cons_self) (hk x (List.mem_cons_of_mem _ hx))]

/-- The run of the head has its field. -/
theorem eq_of_mem_run {x : Row} (hx : x ∈ l :: ls.takeWhile (sameField field l)) :
    Value.order (l.key field) (x.key field) = .eq := by
  rcases List.mem_cons.mp hx with rfl | hx
  · exact Std.ReflCmp.compare_self
  · exact (sameField_iff hk ((List.takeWhile_sublist _).subset hx)).mp (List.mem_takeWhile_imp hx)

/-- What follows the run is greater. -/
theorem lt_of_mem_behind (h : Sorted field (l :: ls)) {x : Row}
    (hx : x ∈ ls.dropWhile (sameField field l)) :
    Value.order (l.key field) (x.key field) = .lt := by
  have hfront : ls.Pairwise fun a b => sameField field l b → sameField field l a := by
    refine (List.pairwise_cons.mp h).2.imp_of_mem fun {a b} ha hb hle hsame => ?_
    have heq := (sameField_iff hk hb).mp hsame
    have hla := h.head_le a (List.mem_cons_of_mem _ ha)
    have hal := Std.TransCmp.isLE_trans hle
      (Ordering.isLE_of_eq_eq (Std.OrientedCmp.eq_symm heq))
    exact (sameField_iff hk ha).mpr (Std.OrientedCmp.isLE_antisymm hla hal)
  have hmem : x ∈ ls := (List.dropWhile_sublist _).subset hx
  have hne := mt (sameField_iff hk hmem).mpr (not_of_mem_dropWhile hfront x hx)
  have hle := h.head_le x (List.mem_cons_of_mem _ hmem)
  exact Ordering.isLE_iff_eq_lt_or_eq_eq.mp hle |>.resolve_right hne

end Run

section Runs

variable {lf rf : Nat} {l r o i : Row} (hkl : ∀ x ∈ l :: ls, HasKey rank lf x)
  (hkr : ∀ x ∈ r :: rs, HasKey rank rf x) (heq : Value.order (l.key lf) (r.key rf) = .eq)

include hkl hkr heq

/-- Of two runs of one value, the first is less than what follows the second. -/
theorem lt_of_mem_run (hr : Sorted rf (r :: rs)) (ho : o ∈ l :: ls.takeWhile (sameField lf l))
    (hi : i ∈ rs.dropWhile (sameField rf r)) : Value.order (o.key lf) (i.key rf) = .lt := by
  have hor := Std.TransCmp.eq_trans (Std.OrientedCmp.eq_symm (eq_of_mem_run hkl ho)) heq
  exact Std.TransCmp.lt_of_eq_of_lt hor (lt_of_mem_behind hkr hr hi)

/-- What follows the first is greater than the second. -/
theorem gt_of_mem_run (hl : Sorted lf (l :: ls)) (ho : o ∈ ls.dropWhile (sameField lf l))
    (hi : i ∈ r :: rs.takeWhile (sameField rf r)) : Value.order (o.key lf) (i.key rf) = .gt := by
  have hli := Std.TransCmp.eq_trans heq (eq_of_mem_run hkr hi)
  have hol := Std.OrientedCmp.gt_of_lt (lt_of_mem_behind hkl hl ho)
  exact Std.TransCmp.gt_of_gt_of_eq hol hli

end Runs

/-- Two runs that match each other, and nothing else. -/
theorem nestedLoop_runs (hrun : ∀ o ∈ os, ∀ i ∈ is, c.holds o i)
    (hleft : ∀ o ∈ os, ∀ i ∈ is', ¬c.holds o i) (hright : ∀ o ∈ os', ∀ i ∈ is, ¬c.holds o i) :
    nestedLoop c (os ++ os') (is ++ is') = product os is ++ nestedLoop c os' is' := by
  rw [nestedLoop_append_left]
  refine congrArg₂ (· ++ ·) (List.flatMap_congr fun o ho => ?_) (List.flatMap_congr fun o ho => ?_)
  · rw [List.filter_append, List.filter_eq_self.mpr (hrun o ho),
      List.filter_eq_nil_iff.mpr (hleft o ho), List.append_nil]
  · rw [List.filter_append, List.filter_eq_nil_iff.mpr (hright o ho), List.nil_append]

section Heads

variable {l r : Row} (hc : c.comparison = .eq) (hkl : ∀ x ∈ l :: ls, HasKey rank c.left x)
  (hkr : ∀ x ∈ r :: rs, HasKey rank c.right x)

include hc hkl hkr

theorem holds_iff {o i : Row} (ho : o ∈ l :: ls) (hi : i ∈ r :: rs) :
    c.holds o i ↔ Value.order (o.key c.left) (i.key c.right) = .eq := by
  rw [holds_eq (by rw [hc]; decide) (hkl o ho) (hkr i hi), hc, Comparison.accepts, beq_iff_eq]

/-- An outer row that is less than the least inner one meets nothing. -/
theorem nestedLoop_of_lt (hr : Sorted c.right (r :: rs))
    (hlt : Value.order (l.key c.left) (r.key c.right) = .lt) :
    nestedLoop c (l :: ls) (r :: rs) = nestedLoop c ls (r :: rs) := by
  have hnone : ∀ o ∈ [l], ∀ i ∈ r :: rs, ¬c.holds o i := by
    intro o ho i hi
    obtain rfl := List.mem_singleton.mp ho
    rw [holds_iff hc hkl hkr List.mem_cons_self hi,
      Std.TransCmp.lt_of_lt_of_isLE hlt (hr.head_le i hi)]
    decide
  have hloop : nestedLoop c ([l] ++ ls) ([] ++ r :: rs) =
      product [l] [] ++ nestedLoop c ls (r :: rs) :=
    nestedLoop_runs (by simp) hnone (by simp)
  exact hloop

/-- An inner row that is less than the least outer one meets nothing. -/
theorem nestedLoop_of_gt (hl : Sorted c.left (l :: ls))
    (hgt : Value.order (l.key c.left) (r.key c.right) = .gt) :
    nestedLoop c (l :: ls) (r :: rs) = nestedLoop c (l :: ls) rs := by
  have hnone : ∀ o ∈ l :: ls, ∀ i ∈ [r], ¬c.holds o i := by
    intro o ho i hi
    obtain rfl := List.mem_singleton.mp hi
    have hge := Std.OrientedCmp.isGE_of_isLE (hl.head_le o ho)
    rw [holds_iff hc hkl hkr ho List.mem_cons_self, Std.TransCmp.gt_of_isGE_of_gt hge hgt]
    decide
  have hloop : nestedLoop c ([] ++ l :: ls) ([r] ++ rs) =
      product [] [r] ++ nestedLoop c (l :: ls) rs :=
    nestedLoop_runs (by simp) (by simp) hnone
  exact hloop

/-- Equal heads: all of the one run meets all of the other, and nothing else does. -/
theorem nestedLoop_of_eq (hl : Sorted c.left (l :: ls)) (hr : Sorted c.right (r :: rs))
    (heq : Value.order (l.key c.left) (r.key c.right) = .eq) :
    nestedLoop c (l :: ls) (r :: rs) =
      product (l :: ls.takeWhile (sameField c.left l)) (r :: rs.takeWhile (sameField c.right r)) ++
        nestedLoop c (ls.dropWhile (sameField c.left l))
          (rs.dropWhile (sameField c.right r)) := by
  have hlrun : l :: ls.takeWhile (sameField c.left l) ⊆ l :: ls :=
    ((List.takeWhile_sublist _).cons_cons l).subset
  have hrrun : r :: rs.takeWhile (sameField c.right r) ⊆ r :: rs :=
    ((List.takeWhile_sublist _).cons_cons r).subset
  have hlrest : ls.dropWhile (sameField c.left l) ⊆ l :: ls :=
    ((List.dropWhile_sublist _).cons l).subset
  have hrrest : rs.dropWhile (sameField c.right r) ⊆ r :: rs :=
    ((List.dropWhile_sublist _).cons r).subset
  have hrun : ∀ o ∈ l :: ls.takeWhile (sameField c.left l),
      ∀ i ∈ r :: rs.takeWhile (sameField c.right r), c.holds o i := by
    intro o ho i hi
    rw [holds_iff hc hkl hkr (hlrun ho) (hrrun hi)]
    have hol := Std.OrientedCmp.eq_symm (eq_of_mem_run hkl ho)
    exact Std.TransCmp.eq_trans (Std.TransCmp.eq_trans hol heq) (eq_of_mem_run hkr hi)
  have hleft : ∀ o ∈ l :: ls.takeWhile (sameField c.left l),
      ∀ i ∈ rs.dropWhile (sameField c.right r), ¬c.holds o i := by
    intro o ho i hi
    rw [holds_iff hc hkl hkr (hlrun ho) (hrrest hi), lt_of_mem_run hkl hkr heq hr ho hi]
    decide
  have hright : ∀ o ∈ ls.dropWhile (sameField c.left l),
      ∀ i ∈ r :: rs.takeWhile (sameField c.right r), ¬c.holds o i := by
    intro o ho i hi
    rw [holds_iff hc hkl hkr (hlrest ho) (hrrun hi), gt_of_mem_run hkl hkr heq hl ho hi]
    decide
  have hloop := nestedLoop_runs hrun hleft hright
  rwa [List.cons_append, List.takeWhile_append_dropWhile, List.cons_append,
    List.takeWhile_append_dropWhile] at hloop

end Heads

/-- Merging equal runs.  By induction along the merge. -/
theorem mergeEqual_eq (hc : c.comparison = .eq) (hkl : ∀ l ∈ ls, HasKey rank c.left l)
    (hkr : ∀ r ∈ rs, HasKey rank c.right r) (hl : Sorted c.left ls) (hr : Sorted c.right rs) :
    mergeEqual c.left c.right ls rs = nestedLoop c ls rs := by
  fun_induction mergeEqual c.left c.right ls rs with
  | case1 rs => rfl
  | case2 ls => simp [nestedLoop]
  | case3 l ls r rs hlt ih =>
    rw [compareFields_eq (hkl l List.mem_cons_self) (hkr r List.mem_cons_self)] at hlt
    rw [nestedLoop_of_lt hc hkl hkr hr hlt]
    exact ih (fun o ho => hkl o (List.mem_cons_of_mem _ ho)) hkr (List.pairwise_cons.mp hl).2 hr
  | case4 l ls r rs hgt ih =>
    rw [compareFields_eq (hkl l List.mem_cons_self) (hkr r List.mem_cons_self)] at hgt
    rw [nestedLoop_of_gt hc hkl hkr hl hgt]
    exact ih hkl (fun i hi => hkr i (List.mem_cons_of_mem _ hi)) hl (List.pairwise_cons.mp hr).2
  | case5 l ls r rs heq ih =>
    rw [compareFields_eq (hkl l List.mem_cons_self) (hkr r List.mem_cons_self)] at heq
    have hlrest : (ls.dropWhile (sameField c.left l)).Sublist (l :: ls) :=
      (List.dropWhile_sublist _).cons l
    have hrrest : (rs.dropWhile (sameField c.right r)).Sublist (r :: rs) :=
      (List.dropWhile_sublist _).cons r
    rw [nestedLoop_of_eq hc hkl hkr hl hr heq, ih (fun o ho => hkl o (hlrest.subset ho))
      (fun i hi => hkr i (hrrest.subset hi)) (hl.sublist hlrest) (hr.sublist hrrest)]

/-! ## 5. Merging two blocks -/

/-- **Merging two sorted blocks** gives the pairs of the nested loop: for `=`, `>` and `>=` in its
order, for `<` and `<=` with the inner rows from the back. -/
theorem mergeBlocks_eq (hc : c.comparison ≠ .ne ∧ c.comparison ≠ .like)
    (hkl : ∀ l ∈ ls, HasKey rank c.left l) (hkr : ∀ r ∈ rs, HasKey rank c.right r)
    (hl : Sorted c.left ls) (hr : Sorted c.right rs) :
    mergeBlocks c ls rs =
      nestedLoop c ls (if c.comparison = .lt ∨ c.comparison = .le then rs.reverse else rs) := by
  unfold mergeBlocks
  split
  case h_1 heq => simp [heq, mergeEqual_eq heq hkl hkr hl hr]
  case h_2 heq => simp [heq, mergeRuns_front (.inl heq) hkl hkr hr]
  case h_3 heq => simp [heq, mergeRuns_front (.inr heq) hkl hkr hr]
  case h_4 heq => simp [heq, mergeRuns_back (.inl heq) hkl hkr hr]
  case h_5 heq => simp [heq, mergeRuns_back (.inr heq) hkl hkr hr]
  case h_6 heq => exact absurd heq hc.1
  case h_7 heq => exact absurd heq hc.2

/-- As far as their order does not matter, the blocks need not be sorted before. -/
theorem mergeBlocks_sorted_perm (hc : c.comparison ≠ .ne ∧ c.comparison ≠ .like)
    (hkl : ∀ l ∈ ls, HasKey rank c.left l) (hkr : ∀ r ∈ rs, HasKey rank c.right r) :
    (mergeBlocks c (sortBlock c.left ls) (sortBlock c.right rs)).Perm (nestedLoop c ls rs) := by
  have hpl := sortBlock_perm c.left ls
  have hpr := sortBlock_perm c.right rs
  have hkl' : ∀ l ∈ sortBlock c.left ls, HasKey rank c.left l := fun l hl =>
    hkl l (hpl.mem_iff.mp hl)
  have hkr' : ∀ r ∈ sortBlock c.right rs, HasKey rank c.right r := fun r hr =>
    hkr r (hpr.mem_iff.mp hr)
  rw [mergeBlocks_eq hc hkl' hkr' (sortBlock_sorted hkl) (sortBlock_sorted hkr)]
  refine nestedLoop_perm hpl ?_
  split
  · exact (List.reverse_perm _).trans hpr
  · exact hpr

end Join
end RowStore
