/-
# Every node is in the list or free

`Arena` says what the arena looks like by its entries.  Here the same is said of the nodes alone, by
what the array, the links, the free nodes and the index show (`Threaded`):

* following the links from either end leads through every node of the list once and to the other
  end;
* a node that is not in the list is one of the ends or free, and has no entry;
* the index leads to a node from the key that the node holds, and from no other.

Every history of a map keeps it so (`threaded_after`).  Hence walking along the list comes to an end
by itself, however far one would go, and the node for a new entry is none that is in use.
-/
import RowStore.Proofs.Lru.Lookup
import Mathlib.Data.List.Iterate

namespace RowStore
namespace Lru

variable {K V : Type} [Ord K]

/-! ## 1. Following the links -/

/-- Steps that lead from each node of a path to the next one lead through the whole path. -/
theorem iterate_of_isChain {step : Nat → Nat} {node : Nat} {path : List Nat}
    (h : (node :: path).IsChain fun a b => step a = b) :
    List.iterate step node (path.length + 1) = node :: path := by
  induction path generalizing node with
  | nil => rfl
  | cons next path ih =>
    obtain ⟨hstep, hrest⟩ := List.isChain_cons_cons.mp h
    rw [List.length_cons, List.iterate, hstep, ih hrest]

namespace Linked

variable {c : Lru K V} {nodes : List Nat}

theorem iterate_next (h : c.Linked (head :: nodes ++ [tail])) :
    List.iterate c.next head (nodes.length + 2) = head :: nodes ++ [tail] := by
  have hchain : (head :: (nodes ++ [tail])).IsChain fun a b => c.next a = b :=
    h.imp fun a b hab => hab.1
  have hpath := iterate_of_isChain hchain
  rwa [List.length_append] at hpath

theorem iterate_prev (h : c.Linked (head :: nodes ++ [tail])) :
    List.iterate c.prev tail (nodes.length + 2) = tail :: nodes.reverse ++ [head] := by
  have hreverse : (head :: nodes ++ [tail]).reverse = tail :: (nodes.reverse ++ [head]) := by simp
  have hchain : (tail :: (nodes.reverse ++ [head])).IsChain fun a b => c.prev a = b := by
    rw [← hreverse, List.isChain_reverse]
    exact h.imp fun a b hab => hab.2
  have hpath := iterate_of_isChain hchain
  rwa [List.length_append, List.length_reverse] at hpath

end Linked

/-! ## 2. The nodes of an arena -/

/-- The arena is in order, and these are the nodes of its list, the most recently used first. -/
structure Threaded (capacity : Nat) (c : Lru K V) (nodes : List Nat) : Prop where
  two_le : 2 ≤ c.nodes.size
  size_le : c.nodes.size ≤ capacity + 2
  /-- Every node but the two ends is in the list or free, and none of them twice. -/
  split : (nodes ++ c.free).Perm (List.range' 2 (c.nodes.size - 2))
  filled : ∀ n ∈ nodes, (c.content? n).isSome
  vacant : ∀ n, n = head ∨ n = tail ∨ n ∈ c.free → c.content? n = none
  forward : List.iterate c.next head (nodes.length + 2) = head :: nodes ++ [tail]
  backward : List.iterate c.prev tail (nodes.length + 2) = tail :: nodes.reverse ++ [head]
  index : ∀ key n, c.index[key]? = some n ↔
    n ∈ nodes ∧ ∃ value, c.content? n = some (key, value)

namespace Arena

variable {c : Lru K V} {chain : List (Nat × K × V)}

theorem free_not_mem (h : Arena c chain) {n : Nat} (hn : n ∈ c.free) : n ∉ nodesOf chain :=
  fun hmem => (List.nodup_append.mp h.nodup_nodes).2.2 n hmem n hn rfl

theorem threaded (h : Arena c chain) : Threaded c.capacity c (nodesOf chain) where
  two_le := h.two_le
  size_le := h.size_le
  split := h.split
  filled n hn := by
    obtain ⟨x, hx, rfl⟩ := List.mem_map.mp hn
    rw [h.entry x hx]
    rfl
  vacant n hn := by
    refine h.noEntry n ?_
    rcases hn with rfl | rfl | hfree
    · exact h.head_not_mem
    · exact h.tail_not_mem
    · exact h.free_not_mem hfree
  forward := h.linked.iterate_next
  backward := h.linked.iterate_prev
  index key n := by
    rw [h.index]
    constructor
    · rintro ⟨value, hmem⟩
      exact ⟨List.mem_map_of_mem hmem, value, h.entry _ hmem⟩
    · rintro ⟨hn, value, hentry⟩
      obtain ⟨x, hx, rfl⟩ := List.mem_map.mp hn
      have hx2 : x.2 = (key, value) := Option.some.inj ((h.entry x hx).symm.trans hentry)
      exact ⟨value, hx2 ▸ hx⟩

/-- The entries of the list are those that its nodes hold. -/
theorem entriesOf_eq (h : Arena c chain) :
    entriesOf chain = (nodesOf chain).filterMap c.content? := by
  rw [List.filterMap_map]
  calc entriesOf chain
      = chain.filterMap (some ∘ fun x => x.2) := by rw [List.filterMap_eq_map]
    _ = chain.filterMap (c.content? ∘ fun x => x.1) :=
        List.filterMap_congr fun x hx => (h.entry x hx).symm

/-- **Walks end by themselves**, at the other end of the list: going on for longer shows no more. -/
theorem walks_eq (h : Arena c chain) {fuel : Nat} (hfuel : (nodesOf chain).length < fuel) :
    c.walk fuel (c.next head) = c.toList ∧
      c.walkBack fuel (c.prev tail) = c.toList.reverse := by
  rw [List.length_map] at hfuel
  rw [h.toList_eq]
  exact ⟨walk_eq chain head fuel h.linked h.tail_not_mem h.entry hfuel,
    walkBack_eq chain tail fuel h.linked h.head_not_mem h.entry hfuel⟩

end Arena

/-! ## 3. Histories -/

/-- The map behind the operations. -/
def after (c : Lru K V) (ops : List (Op K V)) : Lru K V :=
  ops.foldl (fun c op => (c.perform op).2) c

theorem capacity_after (c : Lru K V) (ops : List (Op K V)) :
    (c.after ops).capacity = c.capacity := by
  induction ops generalizing c with
  | nil => rfl
  | cons op ops ih => exact (ih (c.perform op).2).trans (capacity_perform c op)

section Keys

variable [DecidableEq K] [Std.TransOrd K] [Std.LawfulEqOrd K]

/-- Every operation leaves a map that shows some list. -/
theorem InOrder.after {c : Lru K V} (h : c.InOrder) (ops : List (Op K V)) :
    (c.after ops).InOrder := by
  induction ops generalizing c with
  | nil => exact h
  | cons op ops ih => exact ih (h.shows.perform op).2.inOrder

/-- **Every node is in the list or free**, behind every history of a map of any capacity but zero.
From either end one comes to the other.  The entries are those of the nodes on the way, and a walk
that may go on for as long as it likes ends there.  The node that a new entry would get is not in
use. -/
theorem threaded_after {capacity : Nat} (h : 0 < capacity) :
    ∃ c : Lru K V, make capacity = .ok c ∧ ∀ ops : List (Op K V), ∃ nodes,
      Threaded capacity (c.after ops) nodes ∧
      (c.after ops).toList = nodes.filterMap (c.after ops).content? ∧
      (∀ fuel, nodes.length < fuel →
        (c.after ops).walk fuel ((c.after ops).next head) = (c.after ops).toList ∧
          (c.after ops).walkBack fuel ((c.after ops).prev tail) = (c.after ops).toList.reverse) ∧
      ∀ entry, ((c.after ops).alloc entry).1 ∉ head :: nodes ++ [tail] := by
  refine ⟨empty capacity, if_neg h.ne', fun ops => ?_⟩
  obtain ⟨es, chain, harena, -⟩ := (inOrder_empty h).after ops
  have hcapacity : ((empty capacity : Lru K V).after ops).capacity = capacity :=
    capacity_after (empty capacity) ops
  have hthreaded := harena.threaded
  rw [hcapacity] at hthreaded
  exact ⟨nodesOf chain, hthreaded, harena.toList_eq.trans harena.entriesOf_eq,
    fun fuel hfuel => harena.walks_eq hfuel, harena.alloc_not_mem⟩

end Keys

/-- The node that the first entry has left is the node of the third one. -/
theorem threaded_after_recycled : 0 < 2 ∧ ∃ (c : Lru Nat Nat) (nodes : List Nat), make 2 = .ok c ∧
    let left := c.after [.insert 1 10, .insert 2 20, .erase 1]
    let used := left.after [.insert 3 30]
    left.free = [2] ∧ used.index[3]? = some 2 ∧ used.toList = [(3, 30), (2, 20)] ∧
      Threaded 2 used nodes := by
  obtain ⟨c, hmake, hall⟩ := threaded_after (K := Nat) (V := Nat) Nat.two_pos
  obtain rfl : empty 2 = c := Except.ok.inj hmake
  obtain ⟨nodes, hthreaded, -⟩ := hall [.insert 1 10, .insert 2 20, .erase 1, .insert 3 30]
  exact ⟨Nat.two_pos, empty 2, nodes, hmake, rfl, by decide, by decide, hthreaded⟩

end Lru
end RowStore
