/-
# The arena of the recency list is in order

`Arena c chain` says what `c` looks like when `chain` is its list, each node with its entry, the
most recently used first:

* the links lead from one end through the nodes of the chain to the other, in both directions;
* the nodes of the chain and the free ones are all nodes but the two ends, none of them twice;
* the nodes of the chain hold their entries, and no other node holds one;
* the keys of the chain are distinct, and the index leads from each of them to its node and from
  no other key anywhere.

The chain is the whole state as far as an answer can show it.  Sections 3 to 6 say what the
ways to change the list do to it: `Arena.moveToFront`, `Arena.remove` and `Arena.add`, and what is
left of a chain in each case is an arena again.
-/
import RowStore.Proofs.Lru.Links
import Mathlib.Data.List.Perm.Basic
import Mathlib.Data.List.Range

namespace RowStore
namespace Lru

variable {K V : Type} [Ord K]

/-! ## 1. The invariant -/

/-- The nodes of a chain. -/
abbrev nodesOf (chain : List (Nat × K × V)) : List Nat := chain.map (·.1)

/-- The entries of a chain. -/
abbrev entriesOf (chain : List (Nat × K × V)) : List (K × V) := chain.map (·.2)

structure Arena (c : Lru K V) (chain : List (Nat × K × V)) : Prop where
  linked : c.Linked (head :: nodesOf chain ++ [tail])
  /-- Every node but the two ends is in the chain or free, and not both. -/
  split : (nodesOf chain ++ c.free).Perm (List.range' 2 (c.nodes.size - 2))
  two_le : 2 ≤ c.nodes.size
  entry : ∀ x ∈ chain, c.content? x.1 = some x.2
  noEntry : ∀ n, n ∉ nodesOf chain → c.content? n = none
  keys : (chain.map (·.2.1)).Nodup
  index : ∀ k n, c.index[k]? = some n ↔ ∃ v, (n, k, v) ∈ chain
  indexSize : c.index.size = chain.length
  pos : 0 < c.capacity
  length_le : chain.length ≤ c.capacity
  size_le : c.nodes.size ≤ c.capacity + 2

/-! ## 2. What follows from it -/

namespace Arena

variable {c : Lru K V} {chain : List (Nat × K × V)}

theorem nodup_nodes (h : Arena c chain) : (nodesOf chain ++ c.free).Nodup :=
  h.split.nodup_iff.mpr (List.nodup_range')

theorem mem_nodes_iff (h : Arena c chain) (n : Nat) :
    n ∈ nodesOf chain ++ c.free ↔ 2 ≤ n ∧ n < c.nodes.size := by
  rw [h.split.mem_iff, List.mem_range'_1]
  have := h.two_le
  omega

theorem node_range (h : Arena c chain) {x : Nat × K × V} (hx : x ∈ chain) :
    2 ≤ x.1 ∧ x.1 < c.nodes.size :=
  (h.mem_nodes_iff x.1).mp (List.mem_append_left _ (List.mem_map_of_mem hx))

/-- The nodes from one end to the other are distinct. -/
theorem nodup_path (h : Arena c chain) : (head :: nodesOf chain ++ [tail]).Nodup := by
  have hnd : (nodesOf chain).Nodup := (List.nodup_append.mp h.nodup_nodes).1
  have hrange : ∀ n ∈ nodesOf chain, 2 ≤ n := fun n hn =>
    ((h.mem_nodes_iff n).mp (List.mem_append_left _ hn)).1
  rw [List.cons_append, List.nodup_cons, List.nodup_append]
  refine ⟨?_, hnd, List.nodup_cons.mpr ⟨List.not_mem_nil, List.nodup_nil⟩, ?_⟩
  · intro hm
    rcases List.mem_append.mp hm with hm | hm
    · exact absurd (hrange _ hm) (by decide)
    · exact absurd (List.mem_singleton.mp hm) (by decide)
  · intro a ha b hb
    have := hrange a ha
    rw [List.mem_singleton.mp hb]
    intro hab
    subst hab
    exact absurd this (by decide)

/-- The nodes from one end to the other are nodes of the array. -/
theorem path_lt (h : Arena c chain) {n : Nat} (hn : n ∈ head :: nodesOf chain ++ [tail]) :
    n < c.nodes.size := by
  have h2 := h.two_le
  simp only [List.cons_append, List.mem_cons, List.mem_append, List.not_mem_nil, or_false] at hn
  rcases hn with rfl | hn | rfl
  · exact lt_of_lt_of_le (by decide) h2
  · exact ((h.mem_nodes_iff n).mp (List.mem_append_left _ hn)).2
  · exact lt_of_lt_of_le (by decide) h2

theorem length_chain_lt (h : Arena c chain) : chain.length < c.nodes.size := by
  have hlen := h.split.length_eq
  rw [List.length_append, List.length_map, List.length_range'] at hlen
  have := h.two_le
  omega

/-- The node of a key, with the place in the chain where it stands. -/
theorem exists_of_index (h : Arena c chain) {k : K} {n : Nat} (hi : c.index[k]? = some n) :
    ∃ v as bs, chain = as ++ (n, k, v) :: bs := by
  obtain ⟨v, hv⟩ := (h.index k n).mp hi
  obtain ⟨as, bs, rfl⟩ := List.append_of_mem hv
  exact ⟨v, as, bs, rfl⟩

theorem index_of_mem (h : Arena c chain) {n : Nat} {k : K} {v : V} (hm : (n, k, v) ∈ chain) :
    c.index[k]? = some n := (h.index k n).mpr ⟨v, hm⟩

/-- A key without a node is not in the chain. -/
theorem not_mem_of_index (h : Arena c chain) {k : K} (hi : c.index[k]? = none) :
    k ∉ chain.map (·.2.1) := by
  intro hm
  obtain ⟨⟨n, k', v⟩, hx, rfl⟩ := List.mem_map.mp hm
  rw [h.index_of_mem hx] at hi
  exact absurd hi (by simp)

theorem tail_not_mem (h : Arena c chain) : tail ∉ nodesOf chain := by
  have hnd := h.nodup_path
  rw [List.nodup_append] at hnd
  exact fun hm => hnd.2.2 tail (List.mem_cons_of_mem _ hm) tail (List.mem_singleton_self _) rfl

theorem head_not_mem (h : Arena c chain) : head ∉ nodesOf chain := fun hm =>
  (List.nodup_cons.mp h.nodup_path).1 (List.mem_append_left _ hm)

/-- **The list shows the entries of the chain in order.** -/
theorem toList_eq (h : Arena c chain) : c.toList = entriesOf chain :=
  walk_eq chain head c.nodes.size h.linked h.tail_not_mem h.entry h.length_chain_lt

/-- The walk from the other end shows them in reverse. -/
theorem walkBack_tail (h : Arena c chain) :
    c.walkBack c.nodes.size (c.prev tail) = (entriesOf chain).reverse :=
  walkBack_eq chain tail c.nodes.size h.linked h.head_not_mem h.entry h.length_chain_lt

/-- In front of the end stands the last node of the chain, or the head. -/
theorem prev_tail_nil (h : Arena c []) : c.prev tail = head :=
  (List.isChain_cons_cons.mp h.linked).1.2

theorem prev_tail {xs : List (Nat × K × V)} {x : Nat × K × V} (h : Arena c (xs ++ [x])) :
    c.prev tail = x.1 := by
  have hl := h.linked
  have hsplit : head :: nodesOf (xs ++ [x]) ++ [tail]
      = (head :: nodesOf xs) ++ x.1 :: tail :: [] := by simp
  rw [hsplit] at hl
  exact (List.isChain_append_cons_cons.mp hl).2.1.2

theorem oldest?_eq (h : Arena c chain) : c.oldest? = (entriesOf chain).getLast? := by
  rcases List.eq_nil_or_concat' chain with rfl | ⟨xs, x, rfl⟩
  · simp [oldest?, h.prev_tail_nil, h.noEntry head]
  · simp [oldest?, h.prev_tail, h.entry x (by simp)]

/-! ## 3. Moving a node -/

variable {as bs : List (Nat × K × V)} {x : Nat × K × V}

/-- **A node of the chain is unlinked**, and the rest of the chain stays linked. -/
theorem linked_unlink (h : Arena c (as ++ x :: bs)) :
    (c.unlink x.1).Linked (head :: nodesOf (as ++ bs) ++ [tail]) := by
  obtain ⟨ps, before, hps⟩ : ∃ ps before, head :: nodesOf as = ps ++ [before] := by
    rcases List.eq_nil_or_concat' (head :: nodesOf as) with h0 | ⟨ps, b, hb⟩
    · exact absurd h0 (by simp)
    · exact ⟨ps, b, hb⟩
  obtain ⟨after, qs, hqs⟩ : ∃ after qs, nodesOf bs ++ [tail] = after :: qs :=
    List.exists_cons_of_ne_nil (by simp)
  have hpath : head :: nodesOf (as ++ x :: bs) ++ [tail] = ps ++ before :: x.1 :: after :: qs := by
    calc head :: nodesOf (as ++ x :: bs) ++ [tail]
        = (head :: nodesOf as) ++ x.1 :: (nodesOf bs ++ [tail]) := by simp
      _ = ps ++ before :: x.1 :: after :: qs := by rw [hps, hqs]; simp
  have hrest : head :: nodesOf (as ++ bs) ++ [tail] = ps ++ before :: after :: qs := by
    calc head :: nodesOf (as ++ bs) ++ [tail]
        = (head :: nodesOf as) ++ (nodesOf bs ++ [tail]) := by simp
      _ = ps ++ before :: after :: qs := by rw [hps, hqs]; simp
  have hlt : ∀ n ∈ ps ++ before :: x.1 :: after :: qs, n < c.nodes.size := by
    intro n hn
    rw [← hpath] at hn
    exact h.path_lt hn
  rw [hrest]
  exact Linked.unlink (hpath ▸ h.linked) (hpath ▸ h.nodup_path) (hlt _ (by simp))
    (hlt _ (by simp))

/-- The same nodes with the same entries in another order. -/
theorem reorder {c' : Lru K V} {chain' : List (Nat × K × V)} (h : Arena c chain)
    (hp : chain'.Perm chain) (hlinked : c'.Linked (head :: nodesOf chain' ++ [tail]))
    (hentry : ∀ n, c'.content? n = c.content? n) (hsize : c'.nodes.size = c.nodes.size)
    (hfree : c'.free = c.free) (hindex : c'.index = c.index)
    (hcapacity : c'.capacity = c.capacity) : Arena c' chain' where
  linked := hlinked
  split := by
    rw [hfree, hsize]
    exact ((hp.map _).append_right _).trans h.split
  two_le := hsize ▸ h.two_le
  entry y hy := by rw [hentry, h.entry y (hp.mem_iff.mp hy)]
  noEntry n hn := by
    rw [hentry]
    exact h.noEntry n fun hm => hn ((hp.map _).mem_iff.mpr hm)
  keys := (hp.map _).nodup_iff.mpr h.keys
  index k n := by
    rw [hindex, h.index]
    exact exists_congr fun v => hp.mem_iff.symm
  indexSize := by rw [hindex, h.indexSize, hp.length_eq]
  pos := hcapacity ▸ h.pos
  length_le := by rw [hp.length_eq, hcapacity]; exact h.length_le
  size_le := by rw [hsize, hcapacity]; exact h.size_le

/-- Between the head and the end there is a first node, and it is neither of the two if there is
a chain. -/
theorem linked_front {c : Lru K V} {ns : List Nat} {n : Nat}
    (h : c.Linked (head :: ns ++ [tail])) (hnd : (n :: head :: ns ++ [tail]).Nodup)
    (hlt : ∀ m ∈ n :: head :: ns ++ [tail], m < c.nodes.size) :
    (c.linkFront n).Linked (head :: n :: ns ++ [tail]) := by
  obtain ⟨first, qs, hqs⟩ : ∃ first qs, ns ++ [tail] = first :: qs :=
    List.exists_cons_of_ne_nil (by simp)
  simp only [List.cons_append, hqs] at h hnd hlt ⊢
  exact Linked.linkFront h hnd (hlt _ (by simp)) (hlt _ (by simp)) (hlt _ (by simp))

/-- **A node of the chain is moved to the front.** -/
theorem moveToFront (h : Arena c (as ++ x :: bs)) :
    Arena (c.moveToFront x.1) (x :: (as ++ bs)) := by
  rw [Lru.moveToFront]
  split
  · rename_i hfirst
    -- a node in front of `x` would be the first one, and the nodes are distinct
    match as, h with
    | [], h => exact h
    | y :: as, h =>
      have hnext : c.next head = y.1 := (List.isChain_cons_cons.mp h.linked).1.1
      have hnd := h.nodup_path
      have hxy : y.1 = x.1 := hnext.symm.trans hfirst
      simp [hxy] at hnd
  · have hperm : (x :: (as ++ bs)).Perm (as ++ x :: bs) := List.perm_middle.symm
    have hpathPerm : (x.1 :: head :: nodesOf (as ++ bs) ++ [tail]).Perm
        (head :: nodesOf (as ++ x :: bs) ++ [tail]) := by
      refine ((List.Perm.swap _ _ _).append_right _).trans ?_
      exact ((hperm.map (·.1)).cons head).append_right _
    have hnd : (x.1 :: head :: nodesOf (as ++ bs) ++ [tail]).Nodup := by
      rw [hpathPerm.nodup_iff]
      exact h.nodup_path
    have hlt : ∀ m ∈ x.1 :: head :: nodesOf (as ++ bs) ++ [tail],
        m < (c.unlink x.1).nodes.size := by
      intro m hm
      rw [size_unlink]
      exact h.path_lt (hpathPerm.mem_iff.mp hm)
    have hfront : ((c.unlink x.1).linkFront x.1).Linked
        (head :: x.1 :: nodesOf (as ++ bs) ++ [tail]) :=
      linked_front (linked_unlink h) hnd hlt
    exact h.reorder hperm hfront (by simp) (by simp) (by simp) (by simp) (by simp)

/-! ## 4. Changing an entry -/

/-- **A node of the chain gets another value.**  What the arena looks like is read off the
entries, so any state that differs in this one entry will do. -/
theorem setValue {c' : Lru K V} {n : Nat} {k : K} {v w : V} (h : Arena c (as ++ (n, k, v) :: bs))
    (hnext : ∀ m, c'.next m = c.next m) (hprev : ∀ m, c'.prev m = c.prev m)
    (hentry : ∀ m, c'.content? m = if m = n then some (k, w) else c.content? m)
    (hsize : c'.nodes.size = c.nodes.size) (hfree : c'.free = c.free)
    (hindex : c'.index = c.index) (hcapacity : c'.capacity = c.capacity) :
    Arena c' (as ++ (n, k, w) :: bs) := by
  have hnodes : nodesOf (as ++ (n, k, w) :: bs) = nodesOf (as ++ (n, k, v) :: bs) := by simp
  have hkeys : (as ++ (n, k, w) :: bs).map (·.2.1) = (as ++ (n, k, v) :: bs).map (·.2.1) := by
    simp
  have hnd : (nodesOf (as ++ (n, k, v) :: bs)).Nodup := (List.nodup_append.mp h.nodup_nodes).1
  have hother : ∀ y, y ∈ as ∨ y ∈ bs → y.1 ≠ n := by
    rintro y hy rfl
    simp only [List.map_append, List.map_cons, List.nodup_append, List.nodup_cons] at hnd
    rcases hy with hy | hy
    · exact hnd.2.2 y.1 (List.mem_map_of_mem hy) y.1 List.mem_cons_self rfl
    · exact hnd.2.1.1 (List.mem_map_of_mem hy)
  refine
    { linked := hnodes ▸ h.linked.congr fun a b _ _ hab hba => by
        rw [hnext, hprev]
        exact ⟨hab, hba⟩
      split := by rw [hnodes, hfree, hsize]; exact h.split
      two_le := hsize ▸ h.two_le
      entry := ?entry
      noEntry := ?noEntry
      keys := hkeys ▸ h.keys
      index := ?index
      indexSize := by rw [hindex, h.indexSize]; simp
      pos := hcapacity ▸ h.pos
      length_le := by rw [hcapacity]; simpa using h.length_le
      size_le := by rw [hsize, hcapacity]; exact h.size_le }
  case entry =>
    intro y hy
    rcases List.mem_append.mp hy with hy | hy
    · rw [hentry, if_neg (hother y (Or.inl hy)), h.entry y (List.mem_append_left _ hy)]
    · rcases List.mem_cons.mp hy with rfl | hy
      · rw [hentry, if_pos rfl]
      · rw [hentry, if_neg (hother y (Or.inr hy)),
          h.entry y (List.mem_append_right _ (List.mem_cons_of_mem _ hy))]
  case noEntry =>
    intro m hm
    rw [hnodes] at hm
    have hmn : m ≠ n := by
      rintro rfl
      exact hm (by simp)
    rw [hentry, if_neg hmn, h.noEntry m hm]
  case index =>
    intro k' m
    rw [hindex, h.index]
    simp only [List.mem_append, List.mem_cons, Prod.mk.injEq]
    constructor
    · rintro ⟨u, hu | ⟨rfl, rfl, rfl⟩ | hu⟩
      · exact ⟨u, Or.inl hu⟩
      · exact ⟨w, Or.inr (Or.inl ⟨rfl, rfl, rfl⟩)⟩
      · exact ⟨u, Or.inr (Or.inr hu)⟩
    · rintro ⟨u, hu | ⟨rfl, rfl, rfl⟩ | hu⟩
      · exact ⟨u, Or.inl hu⟩
      · exact ⟨v, Or.inr (Or.inl ⟨rfl, rfl, rfl⟩)⟩
      · exact ⟨u, Or.inr (Or.inr hu)⟩

/-- The state without a node and its key: unlinked, emptied, kept for later and struck from the
index. -/
def strike (c : Lru K V) (n : Nat) (key : K) : Lru K V :=
  { (c.unlink n).setEntry n none with free := n :: c.free, index := c.index.erase key }

@[simp] theorem next_strike (c : Lru K V) (n : Nat) (key : K) (m : Nat) :
    (strike c n key).next m = (c.unlink n).next m := next_setEntry _ _ _ _

@[simp] theorem prev_strike (c : Lru K V) (n : Nat) (key : K) (m : Nat) :
    (strike c n key).prev m = (c.unlink n).prev m := prev_setEntry _ _ _ _

@[simp] theorem size_strike (c : Lru K V) (n : Nat) (key : K) :
    (strike c n key).nodes.size = c.nodes.size := by
  rw [← size_unlink c n]
  exact size_setEntry _ _ _

theorem content?_strike {c : Lru K V} {n : Nat} (hn : n < c.nodes.size) (key : K) (m : Nat) :
    (strike c n key).content? m = if m = n then none else c.content? m := by
  have h := content?_setEntry (c.unlink n) (e := none) (by simpa using hn) m
  rw [content?_unlink] at h
  exact h

/-! ## 5. A node for a new entry -/

theorem length_free (h : Arena c chain) :
    c.nodes.size = 2 + chain.length + c.free.length := by
  have hlen := h.split.length_eq
  rw [List.length_append, List.length_map, List.length_range'] at hlen
  have := h.two_le
  omega

/-- The node for a new entry is in neither the chain nor one of the two ends. -/
theorem alloc_not_mem (h : Arena c chain) (e : K × V) :
    (c.alloc e).1 ∉ head :: nodesOf chain ++ [tail] := by
  rw [fst_alloc]
  intro hm
  cases hf : c.free with
  | nil =>
    rw [hf] at hm
    exact absurd (h.path_lt hm) (Nat.lt_irrefl _)
  | cons n free =>
    rw [hf] at hm
    have hfree : n ∈ c.free := by simp [hf]
    have h2 : 2 ≤ n := ((h.mem_nodes_iff n).mp (List.mem_append_right _ hfree)).1
    simp only [List.headD_cons, List.cons_append, List.mem_cons, List.mem_append,
      List.not_mem_nil, or_false] at hm
    rcases hm with rfl | hm | rfl
    · exact absurd h2 (by decide)
    · exact (List.nodup_append.mp h.nodup_nodes).2.2 n hm n hfree rfl
    · exact absurd h2 (by decide)

theorem alloc_lt_size (h : Arena c chain) (e : K × V) :
    (c.alloc e).1 < (c.alloc e).2.nodes.size := by
  rw [fst_alloc, size_alloc]
  cases hf : c.free with
  | nil => simp
  | cons n free =>
    have hfree : n ∈ c.free := by simp [hf]
    simpa using ((h.mem_nodes_iff n).mp (List.mem_append_right _ hfree)).2

/-- With the new node the nodes are still all but the two ends. -/
theorem split_alloc (h : Arena c chain) (e : K × V) :
    ((c.alloc e).1 :: nodesOf chain ++ (c.alloc e).2.free).Perm
      (List.range' 2 ((c.alloc e).2.nodes.size - 2)) := by
  have hsplit := h.split
  have h2 := h.two_le
  rw [fst_alloc, free_alloc, size_alloc]
  cases hf : c.free with
  | nil =>
    rw [hf, List.append_nil] at hsplit
    have hrange : List.range' 2 (c.nodes.size + 1 - 2)
        = List.range' 2 (c.nodes.size - 2) ++ [c.nodes.size] := by
      rw [show c.nodes.size + 1 - 2 = c.nodes.size - 2 + 1 by omega, List.range'_1_concat,
        show 2 + (c.nodes.size - 2) = c.nodes.size by omega]
    simp only [List.headD_nil, List.tail_nil, List.append_nil, if_true]
    rw [hrange]
    exact (hsplit.cons _).trans (List.perm_append_singleton _ _).symm
  | cons n free =>
    rw [hf] at hsplit
    simp only [List.headD_cons, List.tail_cons, reduceCtorEq, if_false]
    exact List.perm_middle.symm.trans hsplit

/-- The state with a new key in front: the entry in a node, the node linked and in the index. -/
def enter (c : Lru K V) (key : K) (value : V) : Lru K V :=
  let placed := c.alloc (key, value)
  (placed.2.linkFront placed.1).withIndex (c.index.insert key placed.1)

section Enter

variable (c : Lru K V) (key : K) (value : V)

theorem index_enter :
    (enter c key value).index = c.index.insert key (c.alloc (key, value)).1 := by
  simp [enter]

theorem free_enter : (enter c key value).free = (c.alloc (key, value)).2.free := by
  simp [enter]

theorem capacity_enter : (enter c key value).capacity = c.capacity := by
  simp [enter]

theorem size_enter :
    (enter c key value).nodes.size = (c.alloc (key, value)).2.nodes.size := by
  simp [enter]

theorem size_alloc_bounds (h : Arena c chain) (hroom : chain.length < c.capacity) (e : K × V) :
    c.nodes.size ≤ (c.alloc e).2.nodes.size ∧ (c.alloc e).2.nodes.size ≤ c.capacity + 2 := by
  have hlen := h.length_free
  have hle := h.size_le
  rw [size_alloc]
  split
  · rename_i hf
    rw [hf, List.length_nil] at hlen
    omega
  · omega

theorem content?_enter (h : Arena c chain) (m : Nat) :
    (enter c key value).content? m
      = if m = (c.alloc (key, value)).1 then some (key, value) else c.content? m := by
  have hfree : ∀ n ∈ c.free, n < c.nodes.size := fun n hn =>
    ((h.mem_nodes_iff n).mp (List.mem_append_right _ hn)).2
  rw [enter, content?_withIndex, content?_linkFront, content?_alloc hfree]

theorem linked_enter (h : Arena c chain) (hroom : chain.length < c.capacity) :
    (enter c key value).Linked
      (head :: (c.alloc (key, value)).1 :: nodesOf chain ++ [tail]) := by
  have hnew := h.alloc_not_mem (key, value)
  have hpath : (c.alloc (key, value)).2.Linked (head :: nodesOf chain ++ [tail]) := by
    refine Linked.congr h.linked fun a b ha hb hab hba => ?_
    rw [next_alloc_of_ne c _ fun e => hnew (e ▸ ha), prev_alloc_of_ne c _ fun e => hnew (e ▸ hb)]
    exact ⟨hab, hba⟩
  have hlt : ∀ m ∈ (c.alloc (key, value)).1 :: head :: nodesOf chain ++ [tail],
      m < (c.alloc (key, value)).2.nodes.size := by
    intro m hm
    rcases List.mem_cons.mp hm with rfl | hm
    · exact h.alloc_lt_size (key, value)
    · exact lt_of_lt_of_le (h.path_lt hm) (size_alloc_bounds c h hroom (key, value)).1
  refine Linked.congr (linked_front hpath (List.nodup_cons.mpr ⟨hnew, h.nodup_path⟩) hlt) ?_
  intro a b _ _ hab hba
  rw [enter, next_withIndex, prev_withIndex]
  exact ⟨hab, hba⟩

end Enter

/-! ## 6. Removing and adding a key -/

section Keys

variable [Std.TransOrd K] [Std.LawfulEqOrd K]

/-- **A node leaves the chain**, and is free from then on. -/
theorem remove (h : Arena c (as ++ x :: bs)) : Arena (strike c x.1 x.2.1) (as ++ bs) := by
  have hnd : (nodesOf (as ++ x :: bs)).Nodup := (List.nodup_append.mp h.nodup_nodes).1
  have hperm : (as ++ x :: bs).Perm (x :: (as ++ bs)) := List.perm_middle
  have hx : x.1 ∉ nodesOf (as ++ bs) :=
    (List.nodup_cons.mp ((hperm.map (·.1)).nodup_iff.mp hnd)).1
  have hk : x.2.1 ∉ (as ++ bs).map (·.2.1) :=
    (List.nodup_cons.mp ((hperm.map (·.2.1)).nodup_iff.mp h.keys)).1
  have hlt : x.1 < c.nodes.size := (h.node_range (by simp)).2
  have hcontains : c.index.contains x.2.1 = true := by
    rw [Std.TreeMap.contains_eq_isSome_getElem?,
      h.index_of_mem (n := x.1) (k := x.2.1) (v := x.2.2) (by simp)]
    rfl
  have hlen : (as ++ x :: bs).length = (as ++ bs).length + 1 := hperm.length_eq
  have hle : (as ++ x :: bs).length ≤ c.capacity := h.length_le
  refine
    { linked := Linked.congr h.linked_unlink fun a b _ _ hab hba => by simp [hab, hba]
      split := ?split
      two_le := by rw [size_strike]; exact h.two_le
      entry := ?entry
      noEntry := ?noEntry
      keys := (List.nodup_cons.mp ((hperm.map (·.2.1)).nodup_iff.mp h.keys)).2
      index := ?index
      indexSize := ?indexSize
      pos := h.pos
      length_le := show (as ++ bs).length ≤ c.capacity by omega
      size_le := by rw [size_strike]; exact h.size_le }
  case split =>
    rw [size_strike]
    refine List.Perm.trans ?_ h.split
    have hnodes : (nodesOf (as ++ x :: bs)).Perm (x.1 :: nodesOf (as ++ bs)) := hperm.map _
    exact List.perm_middle.trans (hnodes.symm.append_right c.free)
  case entry =>
    intro y hy
    have hne : y.1 ≠ x.1 := fun e => hx (e ▸ List.mem_map_of_mem hy)
    rw [content?_strike hlt, if_neg hne, h.entry y (hperm.mem_iff.mpr (List.mem_cons_of_mem _ hy))]
  case noEntry =>
    intro n hn
    rw [content?_strike hlt]
    split
    · rfl
    · rename_i hne
      refine h.noEntry n fun hm => ?_
      rcases List.mem_cons.mp ((hperm.map (·.1)).mem_iff.mp hm) with rfl | hm
      · exact hne rfl
      · exact hn hm
  case index =>
    intro k n
    change (c.index.erase x.2.1)[k]? = some n ↔ _
    rw [Std.TreeMap.getElem?_erase]
    split
    · rename_i hkx
      have hkx : x.2.1 = k := Std.LawfulEqOrd.eq_of_compare hkx
      refine iff_of_false (by simp) ?_
      rintro ⟨v, hv⟩
      exact hk (hkx ▸ List.mem_map_of_mem (f := fun y : Nat × K × V => y.2.1) hv)
    · rename_i hkx
      rw [h.index]
      refine exists_congr fun v => ?_
      rw [hperm.mem_iff, List.mem_cons]
      refine or_iff_right ?_
      rintro rfl
      exact hkx Std.ReflCmp.compare_self
  case indexSize =>
    change (c.index.erase x.2.1).size = _
    rw [Std.TreeMap.size_erase, if_pos hcontains, h.indexSize, hlen]
    rfl

/-- **A key that is not there enters in front**, if there is room for it. -/
theorem add (h : Arena c chain) {key : K} (hkey : c.index[key]? = none)
    (hroom : chain.length < c.capacity) (value : V) :
    Arena (enter c key value) (((c.alloc (key, value)).1, key, value) :: chain) := by
  have hsize := size_alloc_bounds c h hroom (key, value)
  have hnew : (c.alloc (key, value)).1 ∉ nodesOf chain := fun hm =>
    h.alloc_not_mem (key, value) (List.mem_append_left _ (List.mem_cons_of_mem _ hm))
  refine
    { linked := linked_enter c key value h hroom
      split := by
        rw [free_enter, size_enter]
        exact h.split_alloc (key, value)
      two_le := by
        rw [size_enter]
        exact h.two_le.trans hsize.1
      entry := ?entry
      noEntry := ?noEntry
      keys := List.nodup_cons.mpr ⟨h.not_mem_of_index hkey, h.keys⟩
      index := ?index
      indexSize := ?indexSize
      pos := by
        rw [capacity_enter]
        exact h.pos
      length_le := by
        rw [capacity_enter]
        exact hroom
      size_le := by
        rw [capacity_enter, size_enter]
        exact hsize.2 }
  case entry =>
    intro y hy
    rw [content?_enter c key value h]
    rcases List.mem_cons.mp hy with rfl | hy
    · rw [if_pos rfl]
    · have hne : y.1 ≠ (c.alloc (key, value)).1 := fun e => hnew (e ▸ List.mem_map_of_mem hy)
      rw [if_neg hne, h.entry y hy]
  case noEntry =>
    intro m hm
    have hne : m ≠ (c.alloc (key, value)).1 := fun e => hm (e ▸ List.mem_cons_self)
    rw [content?_enter c key value h, if_neg hne]
    exact h.noEntry m fun hm' => hm (List.mem_cons_of_mem _ hm')
  case index =>
    intro k m
    rw [index_enter, Std.TreeMap.getElem?_insert]
    split
    · rename_i hk
      obtain rfl : key = k := Std.LawfulEqOrd.eq_of_compare hk
      constructor
      · intro hm
        obtain rfl := Option.some.inj hm
        exact ⟨value, List.mem_cons_self⟩
      · rintro ⟨v, hv⟩
        rcases List.mem_cons.mp hv with hv | hv
        · rw [(Prod.mk.inj hv).1]
        · rw [h.index_of_mem hv] at hkey
          exact absurd hkey (by simp)
    · rename_i hk
      rw [h.index]
      refine exists_congr fun v => ?_
      rw [List.mem_cons]
      refine (or_iff_right ?_).symm
      intro hv
      obtain rfl : k = key := congrArg (fun y : Nat × K × V => y.2.1) hv
      exact hk Std.ReflCmp.compare_self
  case indexSize =>
    have hcontains : ¬ c.index.contains key = true := by
      rw [Std.TreeMap.contains_eq_isSome_getElem?, hkey]
      exact Bool.false_ne_true
    rw [index_enter, Std.TreeMap.size_insert, if_neg hcontains, h.indexSize]
    rfl

end Keys

end Arena

/-- The map without entries is in order. -/
theorem arena_empty [Std.TransOrd K] {capacity : Nat} (h : 0 < capacity) :
    Arena (empty capacity : Lru K V) [] where
  linked := by
    refine List.isChain_cons_cons.mpr ⟨⟨rfl, rfl⟩, List.isChain_singleton _⟩
  split := List.Perm.refl _
  two_le := Nat.le_refl _
  entry x hx := absurd hx List.not_mem_nil
  noEntry n _ := by
    match n with
    | 0 => rfl
    | 1 => rfl
    | n + 2 => exact content?_eq_none_of_size_le _ (Nat.le_add_left 2 n)
  keys := List.nodup_nil
  index k n := by simp [empty]
  indexSize := rfl
  pos := h
  length_le := Nat.zero_le _
  size_le := Nat.le_add_left 2 _

/-! ## 7. The operations that remove and add -/

theorem erase_eq_strike {c : Lru K V} {key : K} {n : Nat} (hi : c.index[key]? = some n) :
    c.erase key = ((c.content? n).map (·.2), Arena.strike c n key) := by
  rw [erase, hi]
  simp only [release]
  refine Prod.ext ?_ rfl
  exact congrArg (Option.map (·.2)) (content?_unlink (c.withIndex (c.index.erase key)) n n)

theorem popOldest_eq_strike {c : Lru K V} {e : K × V} (hn : c.prev tail ≠ head)
    (he : c.content? (c.prev tail) = some e) :
    c.popOldest = (some e, Arena.strike c (c.prev tail) e.1) := by
  simp only [popOldest, if_neg hn, release, content?_unlink, he]
  rfl

theorem insert_of_new {c : Lru K V} {key : K} (hi : c.index[key]? = none) (value : V) :
    c.insert key value =
      let kept := if c.capacity ≤ c.size then c.popOldest else (none, c)
      (kept.1, Arena.enter kept.2 key value) := by
  simp only [insert, hi, Arena.enter, withIndex, index_linkFront, index_alloc]

theorem insert_of_old {c : Lru K V} {key : K} {n : Nat} (hi : c.index[key]? = some n)
    (value : V) :
    c.insert key value = (none, (c.setEntry n (some (key, value))).moveToFront n) := by
  rw [insert, hi]

end Lru
end RowStore
