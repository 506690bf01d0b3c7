/-
# The links of the recency list

The list of `Lru` runs through an array: each node names its two neighbours.  What can be read of
it is three functions of a node number, `next`, `prev` and `content?`, and this file says what every
write does to the three.  After that no proof looks into the array.

`Linked c path` is the shape: the nodes of `path` stand one behind the other, and each pair of
neighbours names each other.  Two facts about it carry everything else:

* `Linked.unlink`: taking a node out of a path leaves the path without it;
* `Linked.linkFront`: putting a node behind the head leaves the path with it in second place.

Both need the nodes of the path to be distinct, and nothing else: a link is written at a node that
stands at one place of the path only, so no other pair of neighbours sees the write.
-/
import RowStore.Lru
import Mathlib.Data.List.Chain

namespace RowStore
namespace Lru

variable {K V : Type} [Ord K]

/-! ## 1. What the writes do to the reads -/

section Writes

/-- A write to one field of an element leaves another field alone. -/
theorem getElem?_modify_map {α β : Type} (xs : Array α) (a b : Nat) (f : α → α) (field : α → β)
    (h : ∀ n, field (f n) = field n) : (xs.modify a f)[b]?.map field = xs[b]?.map field := by
  rw [Array.getElem?_modify]
  split
  · cases xs[b]? <;> simp [h]
  · rfl

variable (c : Lru K V)

@[simp] theorem size_setNext (a t : Nat) : (c.setNext a t).nodes.size = c.nodes.size := by
  simp [setNext]

@[simp] theorem size_setPrev (a t : Nat) : (c.setPrev a t).nodes.size = c.nodes.size := by
  simp [setPrev]

@[simp] theorem size_setEntry (a : Nat) (e : Option (K × V)) :
    (c.setEntry a e).nodes.size = c.nodes.size := by
  simp [setEntry]

@[simp] theorem free_setNext (a t : Nat) : (c.setNext a t).free = c.free := rfl

@[simp] theorem free_setPrev (a t : Nat) : (c.setPrev a t).free = c.free := rfl

@[simp] theorem free_setEntry (a : Nat) (e : Option (K × V)) :
    (c.setEntry a e).free = c.free := rfl

@[simp] theorem index_setNext (a t : Nat) : (c.setNext a t).index = c.index := rfl

@[simp] theorem index_setPrev (a t : Nat) : (c.setPrev a t).index = c.index := rfl

@[simp] theorem index_setEntry (a : Nat) (e : Option (K × V)) :
    (c.setEntry a e).index = c.index := rfl

@[simp] theorem capacity_setNext (a t : Nat) : (c.setNext a t).capacity = c.capacity := rfl

@[simp] theorem capacity_setPrev (a t : Nat) : (c.setPrev a t).capacity = c.capacity := rfl

@[simp] theorem capacity_setEntry (a : Nat) (e : Option (K × V)) :
    (c.setEntry a e).capacity = c.capacity := rfl

theorem next_setNext {a t : Nat} (h : a < c.nodes.size) (b : Nat) :
    (c.setNext a t).next b = if b = a then t else c.next b := by
  by_cases hb : b = a
  · subst hb
    simp [next, setNext, Array.getElem?_modify, Array.getElem?_eq_getElem h]
  · simp [next, setNext, Array.getElem?_modify, hb, Ne.symm hb]

theorem prev_setPrev {a t : Nat} (h : a < c.nodes.size) (b : Nat) :
    (c.setPrev a t).prev b = if b = a then t else c.prev b := by
  by_cases hb : b = a
  · subst hb
    simp [prev, setPrev, Array.getElem?_modify, Array.getElem?_eq_getElem h]
  · simp [prev, setPrev, Array.getElem?_modify, hb, Ne.symm hb]

theorem content?_setEntry {a : Nat} {e : Option (K × V)} (h : a < c.nodes.size) (b : Nat) :
    (c.setEntry a e).content? b = if b = a then e else c.content? b := by
  by_cases hb : b = a
  · subst hb
    simp [setEntry, content?, Array.getElem?_modify, Array.getElem?_eq_getElem h]
  · simp [setEntry, content?, Array.getElem?_modify, hb, Ne.symm hb]

@[simp] theorem prev_setNext (a t b : Nat) : (c.setNext a t).prev b = c.prev b := by
  simp only [prev, setNext]
  rw [getElem?_modify_map]
  exact fun _ => rfl

@[simp] theorem content?_setNext (a t b : Nat) : (c.setNext a t).content? b = c.content? b := by
  simp only [setNext, content?]
  rw [getElem?_modify_map]
  exact fun _ => rfl

@[simp] theorem next_setPrev (a t b : Nat) : (c.setPrev a t).next b = c.next b := by
  simp only [next, setPrev]
  rw [getElem?_modify_map]
  exact fun _ => rfl

@[simp] theorem content?_setPrev (a t b : Nat) : (c.setPrev a t).content? b = c.content? b := by
  simp only [setPrev, content?]
  rw [getElem?_modify_map]
  exact fun _ => rfl

@[simp] theorem next_setEntry (a b : Nat) (e : Option (K × V)) :
    (c.setEntry a e).next b = c.next b := by
  simp only [next, setEntry]
  rw [getElem?_modify_map]
  exact fun _ => rfl

@[simp] theorem prev_setEntry (a b : Nat) (e : Option (K × V)) :
    (c.setEntry a e).prev b = c.prev b := by
  simp only [prev, setEntry]
  rw [getElem?_modify_map]
  exact fun _ => rfl

theorem content?_eq_none_of_size_le {n : Nat} (h : c.nodes.size ≤ n) : c.content? n = none := by
  simp [Array.getElem?_eq_none h, content?]

end Writes

@[simp] theorem size_unlink (c : Lru K V) (n : Nat) :
    (c.unlink n).nodes.size = c.nodes.size := by
  simp [unlink]

@[simp] theorem content?_unlink (c : Lru K V) (n b : Nat) :
    (c.unlink n).content? b = c.content? b := by
  simp [unlink]

@[simp] theorem size_linkFront (c : Lru K V) (n : Nat) :
    (c.linkFront n).nodes.size = c.nodes.size := by
  simp [linkFront]

@[simp] theorem content?_linkFront (c : Lru K V) (n b : Nat) :
    (c.linkFront n).content? b = c.content? b := by
  simp [linkFront]

@[simp] theorem free_unlink (c : Lru K V) (n : Nat) :
    (c.unlink n).free = c.free := by
  simp [unlink]

@[simp] theorem index_unlink (c : Lru K V) (n : Nat) :
    (c.unlink n).index = c.index := by
  simp [unlink]

@[simp] theorem capacity_unlink (c : Lru K V) (n : Nat) :
    (c.unlink n).capacity = c.capacity := by
  simp [unlink]

@[simp] theorem free_linkFront (c : Lru K V) (n : Nat) :
    (c.linkFront n).free = c.free := by
  simp [linkFront]

@[simp] theorem index_linkFront (c : Lru K V) (n : Nat) :
    (c.linkFront n).index = c.index := by
  simp [linkFront]

@[simp] theorem capacity_linkFront (c : Lru K V) (n : Nat) :
    (c.linkFront n).capacity = c.capacity := by
  simp [linkFront]

/-! ### A node for a new entry -/

/-- The node is a free one, or the first behind the array. -/
theorem fst_alloc (c : Lru K V) (e : K × V) : (c.alloc e).1 = c.free.headD c.nodes.size := by
  unfold alloc
  cases c.free <;> rfl

@[simp] theorem free_alloc (c : Lru K V) (e : K × V) : (c.alloc e).2.free = c.free.tail := by
  unfold alloc
  cases c.free <;> rfl

@[simp] theorem index_alloc (c : Lru K V) (e : K × V) : (c.alloc e).2.index = c.index := by
  unfold alloc
  cases c.free <;> rfl

@[simp] theorem capacity_alloc (c : Lru K V) (e : K × V) :
    (c.alloc e).2.capacity = c.capacity := by
  unfold alloc
  cases c.free <;> rfl

theorem size_alloc (c : Lru K V) (e : K × V) :
    (c.alloc e).2.nodes.size = if c.free = [] then c.nodes.size + 1 else c.nodes.size := by
  unfold alloc
  cases c.free <;> simp

theorem getElem?_alloc_of_ne (c : Lru K V) (e : K × V) {m : Nat} (hm : m ≠ (c.alloc e).1) :
    (c.alloc e).2.nodes[m]? = c.nodes[m]? := by
  rw [fst_alloc] at hm
  unfold alloc
  cases hf : c.free with
  | nil =>
    rw [hf] at hm
    simp [Array.getElem?_push, show m ≠ c.nodes.size from hm]
  | cons n free =>
    rw [hf] at hm
    exact Array.getElem?_setIfInBounds_ne (Ne.symm hm)

theorem next_alloc_of_ne (c : Lru K V) (e : K × V) {m : Nat} (hm : m ≠ (c.alloc e).1) :
    (c.alloc e).2.next m = c.next m := by
  rw [next, getElem?_alloc_of_ne c e hm, next]

theorem prev_alloc_of_ne (c : Lru K V) (e : K × V) {m : Nat} (hm : m ≠ (c.alloc e).1) :
    (c.alloc e).2.prev m = c.prev m := by
  rw [prev, getElem?_alloc_of_ne c e hm, prev]

theorem content?_alloc {c : Lru K V} (hfree : ∀ n ∈ c.free, n < c.nodes.size) (e : K × V)
    (m : Nat) : (c.alloc e).2.content? m = if m = (c.alloc e).1 then some e else c.content? m := by
  split
  · rename_i hm
    subst hm
    unfold alloc
    cases hf : c.free with
    | nil => simp [content?]
    | cons n free =>
      have hn : n < c.nodes.size := hfree n (by simp [hf])
      simp [hn, content?]
  · rename_i hm
    rw [content?, getElem?_alloc_of_ne c e hm, content?]

/-! ### Another entry -/

/-- The state with the entry of a node changed. -/
def mapEntry (c : Lru K V) (n : Nat) (f : K × V → K × V) : Lru K V :=
  { c with nodes := c.nodes.modify n fun node => { node with entry := node.entry.map f } }

section MapEntry

variable (c : Lru K V) (n : Nat) (f : K × V → K × V)

@[simp] theorem size_mapEntry : (c.mapEntry n f).nodes.size = c.nodes.size := by
  simp [mapEntry]

@[simp] theorem next_mapEntry (m : Nat) : (c.mapEntry n f).next m = c.next m := by
  simp only [next, mapEntry]
  rw [getElem?_modify_map]
  exact fun _ => rfl

@[simp] theorem prev_mapEntry (m : Nat) : (c.mapEntry n f).prev m = c.prev m := by
  simp only [prev, mapEntry]
  rw [getElem?_modify_map]
  exact fun _ => rfl

theorem content?_mapEntry (m : Nat) :
    (c.mapEntry n f).content? m = if m = n then (c.content? m).map f else c.content? m := by
  by_cases hm : m = n
  · subst hm
    simp only [mapEntry, content?, Array.getElem?_modify, if_true]
    cases c.nodes[m]? <;> simp
  · simp [mapEntry, content?, Array.getElem?_modify, hm, Ne.symm hm]

end MapEntry

theorem modify_eq_mapEntry {c : Lru K V} {key : K} {n : Nat} (hi : c.index[key]? = some n)
    (change : V → V) : c.modify key change = c.mapEntry n fun (k, v) => (k, change v) := by
  rw [modify, hi]
  rfl

/-! ### Another index -/

/-- The same nodes under another index. -/
def withIndex (c : Lru K V) (index : Std.TreeMap K Nat) : Lru K V := { c with index }

section WithIndex

variable (c : Lru K V) (index : Std.TreeMap K Nat)

@[simp] theorem index_withIndex : (c.withIndex index).index = index := rfl

@[simp] theorem nodes_withIndex : (c.withIndex index).nodes = c.nodes := rfl

@[simp] theorem free_withIndex : (c.withIndex index).free = c.free := rfl

@[simp] theorem capacity_withIndex : (c.withIndex index).capacity = c.capacity := rfl

@[simp] theorem next_withIndex (m : Nat) : (c.withIndex index).next m = c.next m := rfl

@[simp] theorem prev_withIndex (m : Nat) : (c.withIndex index).prev m = c.prev m := rfl

@[simp] theorem content?_withIndex (m : Nat) : (c.withIndex index).content? m = c.content? m := rfl

end WithIndex

/-! ### The capacity never changes -/

@[simp] theorem capacity_moveToFront (c : Lru K V) (n : Nat) :
    (c.moveToFront n).capacity = c.capacity := by
  unfold moveToFront
  split <;> simp

@[simp] theorem capacity_touch (c : Lru K V) (key : K) :
    (c.touch key).capacity = c.capacity := by
  unfold touch
  split <;> simp

@[simp] theorem capacity_modify (c : Lru K V) (key : K) (change : V → V) :
    (c.modify key change).capacity = c.capacity := by
  unfold modify
  split <;> rfl

@[simp] theorem capacity_release (c : Lru K V) (n : Nat) :
    (c.release n).2.capacity = c.capacity := rfl

@[simp] theorem capacity_erase (c : Lru K V) (key : K) :
    (c.erase key).2.capacity = c.capacity := by
  unfold erase
  split
  · rfl
  · simp only [capacity_release, capacity_unlink]

@[simp] theorem capacity_popOldest (c : Lru K V) : c.popOldest.2.capacity = c.capacity := by
  have h : ((c.unlink (c.prev tail)).release (c.prev tail)).2.capacity = c.capacity := by simp
  simp only [popOldest]
  split
  · rfl
  · cases hr : (c.unlink (c.prev tail)).release (c.prev tail) with
    | mk entry rest =>
      rw [hr] at h
      cases entry with
      | none => exact h
      | some entry => exact h

@[simp] theorem capacity_insert (c : Lru K V) (key : K) (value : V) :
    (c.insert key value).2.capacity = c.capacity := by
  simp only [insert]
  split
  · simp
  · simp only [capacity_linkFront, capacity_alloc]
    split <;> simp

/-! ## 2. Paths -/

/-- The nodes stand one behind the other, and each two neighbours name each other. -/
def Linked (c : Lru K V) (path : List Nat) : Prop :=
  path.IsChain fun a b => c.next a = b ∧ c.prev b = a

/-- **A path only reads the links between its own nodes.**  So a write that changes no such link
leaves it standing. -/
theorem Linked.congr {c c' : Lru K V} {path : List Nat} (h : c.Linked path)
    (hlinks : ∀ a b, a ∈ path → b ∈ path → c.next a = b → c.prev b = a →
      c'.next a = b ∧ c'.prev b = a) : c'.Linked path :=
  List.IsChain.imp_of_mem_imp (fun a b ha hb hab => hlinks a b ha hb hab.1 hab.2) h

theorem next_unlink {c : Lru K V} {n : Nat} (h : c.prev n < c.nodes.size) (x : Nat) :
    (c.unlink n).next x = if x = c.prev n then c.next n else c.next x := by
  simp only [unlink, next_setPrev, next_setNext c h]

theorem prev_unlink {c : Lru K V} {n : Nat} (h : c.next n < c.nodes.size) (x : Nat) :
    (c.unlink n).prev x = if x = c.next n then c.prev n else c.prev x := by
  rw [unlink, prev_setPrev _ (by simpa using h), prev_setNext]

/-- **A node is taken out.**  Its two neighbours become neighbours of each other. -/
theorem Linked.unlink {c : Lru K V} {ps qs : List Nat} {before n after : Nat}
    (h : c.Linked (ps ++ before :: n :: after :: qs))
    (hnd : (ps ++ before :: n :: after :: qs).Nodup)
    (hb : before < c.nodes.size) (ha : after < c.nodes.size) :
    (c.unlink n).Linked (ps ++ before :: after :: qs) := by
  simp only [Linked, List.isChain_append_cons_cons, List.isChain_cons_cons] at h ⊢
  obtain ⟨hps, ⟨hnext, hprev⟩, ⟨hnext', hprev'⟩, hqs⟩ := h
  have hn : ∀ x, (c.unlink n).next x = if x = before then after else c.next x := by
    intro x
    rw [next_unlink (hprev ▸ hb), hprev, hnext']
  have hp : ∀ x, (c.unlink n).prev x = if x = after then before else c.prev x := by
    intro x
    rw [prev_unlink (hnext' ▸ ha), hprev, hnext']
  refine ⟨Linked.congr hps ?_, ⟨by rw [hn, if_pos rfl], by rw [hp, if_pos rfl]⟩,
    Linked.congr hqs ?_⟩
  -- in front of the gap, only the last node has another successor now, and it was `n`
  · intro a b hap hbp hab hba
    have hane : a ≠ before := by
      rintro rfl
      grind
    have hbne : b ≠ after := by grind
    rw [hn, hp, if_neg hane, if_neg hbne]
    exact ⟨hab, hba⟩
  -- behind it, only the first node has another predecessor now, and it was `n`
  · intro a b haq hbq hab hba
    have hane : a ≠ before := by grind
    have hbne : b ≠ after := by
      rintro rfl
      grind
    rw [hn, hp, if_neg hane, if_neg hbne]
    exact ⟨hab, hba⟩

theorem next_linkFront {c : Lru K V} {n : Nat} (hn : n < c.nodes.size) (hh : head < c.nodes.size)
    (x : Nat) :
    (c.linkFront n).next x
      = if x = head then n else if x = n then c.next head else c.next x := by
  rw [linkFront, next_setNext _ (by simpa using hh), next_setPrev,
    next_setNext _ (by simpa using hn), next_setPrev]

theorem prev_linkFront {c : Lru K V} {n : Nat} (hn : n < c.nodes.size)
    (hf : c.next head < c.nodes.size) (x : Nat) :
    (c.linkFront n).prev x
      = if x = c.next head then n else if x = n then head else c.prev x := by
  rw [linkFront, prev_setNext, prev_setPrev _ (by simpa using hf), prev_setNext,
    prev_setPrev _ hn]

/-- **A node is put in front.**  It must not stand on the path yet. -/
theorem Linked.linkFront {c : Lru K V} {qs : List Nat} {first n : Nat}
    (h : c.Linked (head :: first :: qs)) (hnd : (n :: head :: first :: qs).Nodup)
    (hn : n < c.nodes.size) (hh : head < c.nodes.size) (hf : first < c.nodes.size) :
    (c.linkFront n).Linked (head :: n :: first :: qs) := by
  simp only [Linked, List.isChain_cons_cons] at h ⊢
  obtain ⟨⟨hnext, hprev⟩, hqs⟩ := h
  have hnx := next_linkFront hn hh
  have hpx := prev_linkFront hn (by rwa [hnext])
  rw [hnext] at hnx hpx
  refine ⟨⟨by rw [hnx, if_pos rfl], ?_⟩, ⟨?_, by rw [hpx, if_pos rfl]⟩, Linked.congr hqs ?_⟩
  · have hne : n ≠ first := by grind
    rw [hpx, if_neg hne, if_pos rfl]
  · have hne : n ≠ head := by grind
    rw [hnx, if_neg hne, if_pos rfl]
  · intro a b haq hbq hab hba
    have h1 : a ≠ head := by grind
    have h2 : a ≠ n := by grind
    have h3 : b ≠ first := by
      rintro rfl
      grind
    have h4 : b ≠ n := by grind
    rw [hnx, hpx, if_neg h1, if_neg h2, if_neg h3, if_neg h4]
    exact ⟨hab, hba⟩

/-! ## 3. Walking a path

A path is walked with the entries that its nodes hold: the list of the two together. -/

/-- Walking on from a node shows the entries of the nodes behind it. -/
theorem walk_eq {c : Lru K V} : ∀ (xs : List (Nat × K × V)) (a fuel : Nat),
    c.Linked (a :: xs.map (·.1) ++ [tail]) → tail ∉ xs.map (·.1) →
      (∀ x ∈ xs, c.content? x.1 = some x.2) → xs.length < fuel →
      c.walk fuel (c.next a) = xs.map (·.2)
  | _, _, 0, _, _, _, hf => absurd hf (Nat.not_lt_zero _)
  | [], a, fuel + 1, h, _, _, _ => by
    have hnext : c.next a = tail := (List.isChain_cons_cons.mp h).1.1
    simp [walk, hnext]
  | x :: xs, a, fuel + 1, h, ht, he, hf => by
    have h' := List.isChain_cons_cons.mp h
    have hnext : c.next a = x.1 := h'.1.1
    have hne : x.1 ≠ tail := fun e => ht (e ▸ List.mem_cons_self)
    have ih := walk_eq xs x.1 fuel h'.2 (fun hm => ht (List.mem_cons_of_mem _ hm))
      (fun y hy => he y (List.mem_cons_of_mem _ hy)) (by simpa using hf)
    rw [hnext, walk, if_neg hne, he x List.mem_cons_self, ih]
    rfl

/-- Walking back from a node shows the entries of the nodes in front of it, the nearest first. -/
theorem walkBack_eq {c : Lru K V} (xs : List (Nat × K × V)) : ∀ (b fuel : Nat),
    c.Linked (head :: xs.map (·.1) ++ [b]) → head ∉ xs.map (·.1) →
      (∀ x ∈ xs, c.content? x.1 = some x.2) → xs.length < fuel →
      c.walkBack fuel (c.prev b) = (xs.map (·.2)).reverse := by
  induction xs using List.reverseRecOn with
  | nil =>
    intro b fuel h _ _ hf
    have hprev : c.prev b = head := (List.isChain_cons_cons.mp h).1.2
    match fuel, hf with
    | fuel + 1, _ => simp [walkBack, hprev]
  | append_singleton xs x ih =>
    intro b fuel h ht he hf
    have hsplit : head :: (xs ++ [x]).map (·.1) ++ [b]
        = (head :: xs.map (·.1)) ++ x.1 :: b :: [] := by simp
    rw [hsplit] at h
    have h' := List.isChain_append_cons_cons.mp h
    have hprev : c.prev b = x.1 := h'.2.1.2
    have hne : x.1 ≠ head := fun e => ht (e ▸ by simp)
    match fuel, hf with
    | fuel + 1, hf =>
      have hlen : xs.length < fuel := by simpa using hf
      have hback := ih x.1 fuel h'.1 (fun hm => ht (by simp [hm]))
        (fun y hy => he y (by simp [hy])) hlen
      rw [hprev, walkBack, if_neg hne, he x (by simp), hback]
      simp

end Lru
end RowStore
