/-
# The cache is a list of entries, the most recently used first

Section 1 is the reference: a plain list of entries with distinct keys, on which every operation
is a line or two.  `Shows c es` says that the arena `c` holds the list `es`, and for each operation
there is one lemma: from a state that shows `es` it answers what the list answers, and the state
behind it shows the list that the operation leaves.  Whoever uses a cache needs nothing else.

The main result, `observe_eq_recency`, is about whole histories.  The observer sees of each
operation its answer and, after it, the number of entries and all of them in order; from the empty
map of any capacity the two sides cannot be told apart by any sequence of operations.
-/
import RowStore.Proofs.Lru.Arena
import RowStore.Identifier

namespace RowStore

/-! ## 1. The reference -/

namespace Recency

variable {K V : Type} [DecidableEq K]

/-- The value of a key. -/
def find? (es : List (K × V)) (key : K) : Option V := (es.find? (·.1 = key)).map (·.2)

/-- The list without a key. -/
def without (es : List (K × V)) (key : K) : List (K × V) := es.filter (·.1 ≠ key)

/-- The list with a key in front, if it is there. -/
def touch (es : List (K × V)) (key : K) : List (K × V) :=
  match find? es key with
  | none => es
  | some value => (key, value) :: without es key

/-- The list with another value for a key, and the key in front, if it is there. -/
def replace (es : List (K × V)) (key : K) (value : V) : List (K × V) :=
  if (find? es key).isSome then (key, value) :: without es key else es

/-- The list with another value for a key, in its place. -/
def modify (es : List (K × V)) (key : K) (change : V → V) : List (K × V) :=
  es.map fun e => if e.1 = key then (e.1, change e.2) else e

/-- The list with a new entry in front.  An old entry of the key goes; for a new key in a list that
is full the last entry goes, and is handed back. -/
def insert (capacity : Nat) (es : List (K × V)) (key : K) (value : V) :
    Option (K × V) × List (K × V) :=
  if (find? es key).isSome then (none, (key, value) :: without es key)
  else if es.length < capacity then (none, (key, value) :: es)
  else (es.getLast?, (key, value) :: es.dropLast)

theorem find?_eq_none_iff {es : List (K × V)} {key : K} :
    find? es key = none ↔ key ∉ es.map (·.1) := by
  simp only [find?, Option.map_eq_none_iff, List.find?_eq_none, decide_eq_true_eq, List.mem_map,
    not_exists, not_and]

theorem find?_eq_some_iff {es : List (K × V)} (hnd : (es.map (·.1)).Nodup) {key : K} {value : V} :
    find? es key = some value ↔ (key, value) ∈ es := by
  induction es with
  | nil => simp [find?]
  | cons e es ih =>
    rw [List.map_cons, List.nodup_cons] at hnd
    by_cases he : e.1 = key
    · have hfind : find? (e :: es) key = some e.2 := by simp [find?, he]
      rw [hfind, Option.some.injEq]
      constructor
      · rintro rfl
        exact he ▸ List.mem_cons_self
      · intro hm
        rcases List.mem_cons.mp hm with rfl | hm
        · rfl
        · exact absurd (List.mem_map_of_mem hm) (he ▸ hnd.1)
    · have hfind : find? (e :: es) key = find? es key := by simp [find?, he]
      rw [hfind, ih hnd.2, List.mem_cons]
      refine (or_iff_right ?_).symm
      rintro rfl
      exact he rfl

/-- In a list with distinct keys the parts around an entry do not have its key. -/
theorem not_mem_around {K V : Type} {as bs : List (K × V)} {e : K × V}
    (hnd : ((as ++ e :: bs).map (·.1)).Nodup) :
    e.1 ∉ as.map (·.1) ∧ e.1 ∉ bs.map (·.1) := by
  simp only [List.map_append, List.map_cons, List.nodup_append, List.nodup_cons] at hnd
  exact ⟨fun hm => hnd.2.2 _ hm _ List.mem_cons_self rfl, hnd.2.1.1⟩

theorem without_of_not_mem {es : List (K × V)} {key : K} (h : key ∉ es.map (·.1)) :
    without es key = es :=
  List.filter_eq_self.mpr fun e he => by
    simpa using fun hek : e.1 = key => h (hek ▸ List.mem_map_of_mem he)

theorem modify_of_not_mem {es : List (K × V)} {key : K} (h : key ∉ es.map (·.1))
    (change : V → V) : modify es key change = es := by
  rw [modify]
  conv => rhs; rw [← List.map_id es]
  exact List.map_congr_left fun e he =>
    if_neg fun hek : e.1 = key => h (hek ▸ List.mem_map_of_mem he)

theorem without_split {as bs : List (K × V)} {e : K × V}
    (hnd : ((as ++ e :: bs).map (·.1)).Nodup) : without (as ++ e :: bs) e.1 = as ++ bs := by
  have has : without as e.1 = as := without_of_not_mem (not_mem_around hnd).1
  have hbs : without bs e.1 = bs := without_of_not_mem (not_mem_around hnd).2
  rw [without, List.filter_append, List.filter_cons_of_neg (by simp)]
  exact congrArg₂ _ has hbs

theorem modify_split {as bs : List (K × V)} {e : K × V}
    (hnd : ((as ++ e :: bs).map (·.1)).Nodup) (change : V → V) :
    modify (as ++ e :: bs) e.1 change = as ++ (e.1, change e.2) :: bs := by
  have has : modify as e.1 change = as := modify_of_not_mem (not_mem_around hnd).1 change
  have hbs : modify bs e.1 change = bs := modify_of_not_mem (not_mem_around hnd).2 change
  rw [modify, List.map_append, List.map_cons, if_pos rfl]
  exact congrArg₂ (fun l r => l ++ (e.1, change e.2) :: r) has hbs

theorem find?_split {as bs : List (K × V)} {e : K × V}
    (hnd : ((as ++ e :: bs).map (·.1)).Nodup) : find? (as ++ e :: bs) e.1 = some e.2 :=
  (find?_eq_some_iff hnd).mpr (by simp)

theorem touch_split {as bs : List (K × V)} {e : K × V}
    (hnd : ((as ++ e :: bs).map (·.1)).Nodup) :
    touch (as ++ e :: bs) e.1 = e :: (as ++ bs) := by
  rw [touch, find?_split hnd, without_split hnd]

theorem modify_touch_eq_replace (es : List (K × V)) (key : K) (value : V) :
    modify (touch es key) key (fun _ => value) = replace es key value := by
  cases hf : find? es key with
  | none =>
    have hk : key ∉ es.map (·.1) := find?_eq_none_iff.mp hf
    simp only [touch, replace, hf, modify_of_not_mem hk]
    rfl
  | some old =>
    have hrest : key ∉ (without es key).map (·.1) := by
      rw [without, List.mem_map]
      rintro ⟨e, he, hek⟩
      simp [hek] at he
    have hmap : modify (without es key) key (fun _ => value) = without es key :=
      modify_of_not_mem hrest _
    rw [modify] at hmap
    simp only [touch, replace, hf, modify, List.map_cons, if_true, Option.isSome_some, hmap]

end Recency

/-! ## 2. The cache shows a list -/

namespace Lru

variable {K V : Type} [Ord K]

/-- The arena is in order and holds the entries of the list, the most recently used first. -/
def Shows (c : Lru K V) (es : List (K × V)) : Prop :=
  ∃ chain, Arena c chain ∧ entriesOf chain = es

namespace Shows

variable {c : Lru K V} {es : List (K × V)}

theorem toList_eq (h : c.Shows es) : c.toList = es := by
  obtain ⟨chain, ha, rfl⟩ := h
  exact ha.toList_eq

theorem values_eq (h : c.Shows es) : c.values = es.map (·.2) := by
  rw [values, h.toList_eq]

theorem nodup_keys (h : c.Shows es) : (es.map (·.1)).Nodup := by
  obtain ⟨chain, ha, rfl⟩ := h
  rw [List.map_map]
  exact ha.keys

theorem length_le (h : c.Shows es) : es.length ≤ c.capacity := by
  obtain ⟨chain, ha, rfl⟩ := h
  simpa using ha.length_le

theorem capacity_pos (h : c.Shows es) : 0 < c.capacity := by
  obtain ⟨chain, ha, rfl⟩ := h
  exact ha.pos

theorem size_eq (h : c.Shows es) : c.size = es.length := by
  obtain ⟨chain, ha, rfl⟩ := h
  simpa [size] using ha.indexSize

theorem oldest?_eq (h : c.Shows es) : c.oldest? = es.getLast? := by
  obtain ⟨chain, ha, rfl⟩ := h
  exact ha.oldest?_eq

theorem oldestWhere?_eq (h : c.Shows es) (accept : K → V → Bool) :
    c.oldestWhere? accept = es.reverse.find? fun e => accept e.1 e.2 := by
  obtain ⟨chain, ha, rfl⟩ := h
  rw [oldestWhere?, ha.walkBack_tail]

/-- The index and the list agree on a key: it has no node and is not in the list, or it has a node
and stands somewhere in the list. -/
theorem located (h : c.Shows es) (key : K) :
    (c.index[key]? = none ∧ key ∉ es.map (·.1)) ∨
      ∃ n as bs value, c.index[key]? = some n ∧ Arena c (as ++ (n, key, value) :: bs) ∧
        es = entriesOf as ++ (key, value) :: entriesOf bs := by
  obtain ⟨chain, ha, rfl⟩ := h
  cases hi : c.index[key]? with
  | none =>
    refine Or.inl ⟨rfl, ?_⟩
    rw [List.map_map]
    exact ha.not_mem_of_index hi
  | some n =>
    obtain ⟨value, as, bs, rfl⟩ := ha.exists_of_index hi
    exact Or.inr ⟨n, as, bs, value, rfl, ha, by simp⟩

section Keys

variable [DecidableEq K] [Std.TransOrd K] [Std.LawfulEqOrd K]

open Recency

omit [Std.TransOrd K] [Std.LawfulEqOrd K] in
theorem peek?_eq (h : c.Shows es) (key : K) : c.peek? key = find? es key := by
  have hnd := h.nodup_keys
  rcases h.located key with ⟨hi, hk⟩ | ⟨n, as, bs, value, hi, ha, rfl⟩
  · rw [find?_eq_none_iff.mpr hk]
    simp [peek?, hi]
  · rw [find?_split hnd]
    have hentry : c.content? n = some (key, value) :=
      ha.entry (n, key, value) (List.mem_append_right _ List.mem_cons_self)
    simp [peek?, hi, hentry]

omit [Std.LawfulEqOrd K] in
theorem contains_eq (h : c.Shows es) (key : K) : c.contains key = (find? es key).isSome := by
  have hnd := h.nodup_keys
  rw [contains, Std.TreeMap.contains_eq_isSome_getElem?]
  rcases h.located key with ⟨hi, hk⟩ | ⟨n, as, bs, value, hi, ha, rfl⟩
  · rw [find?_eq_none_iff.mpr hk, hi]
    rfl
  · rw [find?_split hnd, hi]
    rfl

omit [Std.TransOrd K] [Std.LawfulEqOrd K] in
theorem touch (h : c.Shows es) (key : K) : (c.touch key).Shows (Recency.touch es key) := by
  have hnd := h.nodup_keys
  rcases h.located key with ⟨hi, hk⟩ | ⟨n, as, bs, value, hi, ha, rfl⟩
  · rw [Recency.touch, find?_eq_none_iff.mpr hk, Lru.touch, hi]
    exact h
  · rw [touch_split hnd, Lru.touch, hi]
    exact ⟨_, ha.moveToFront, by simp⟩

omit [Std.TransOrd K] [Std.LawfulEqOrd K] in
theorem modify (h : c.Shows es) (key : K) (change : V → V) :
    (c.modify key change).Shows (Recency.modify es key change) := by
  have hnd := h.nodup_keys
  rcases h.located key with ⟨hi, hk⟩ | ⟨n, as, bs, value, hi, ha, rfl⟩
  · rw [modify_of_not_mem hk, Lru.modify, hi]
    exact h
  · have hentry : c.content? n = some (key, value) :=
      ha.entry (n, key, value) (List.mem_append_right _ List.mem_cons_self)
    rw [modify_split hnd, modify_eq_mapEntry hi]
    refine ⟨_, ha.setValue (w := change value) (by simp) (by simp) (fun m => ?_) (by simp) rfl rfl
      rfl, by simp⟩
    rw [content?_mapEntry]
    split
    · rename_i hm
      rw [hm, hentry]
      rfl
    · rfl

theorem erase (h : c.Shows es) (key : K) :
    (c.erase key).1 = find? es key ∧ (c.erase key).2.Shows (without es key) := by
  have hnd := h.nodup_keys
  rcases h.located key with ⟨hi, hk⟩ | ⟨n, as, bs, value, hi, ha, rfl⟩
  · rw [find?_eq_none_iff.mpr hk, without_of_not_mem hk, Lru.erase, hi]
    exact ⟨rfl, h⟩
  · have hentry : c.content? n = some (key, value) :=
      ha.entry (n, key, value) (List.mem_append_right _ List.mem_cons_self)
    rw [find?_split hnd, without_split hnd, erase_eq_strike hi, hentry]
    exact ⟨rfl, _, ha.remove, by simp⟩

omit [DecidableEq K] in
theorem popOldest (h : c.Shows es) :
    c.popOldest.1 = es.getLast? ∧ c.popOldest.2.Shows es.dropLast := by
  obtain ⟨chain, ha, rfl⟩ := h
  rcases List.eq_nil_or_concat' chain with rfl | ⟨xs, x, rfl⟩
  · have hprev : c.prev tail = head := ha.prev_tail_nil
    rw [Lru.popOldest, if_pos hprev]
    exact ⟨rfl, [], ha, rfl⟩
  · have hprev : c.prev tail = x.1 := ha.prev_tail
    have hentry : c.content? (c.prev tail) = some x.2 := by rw [hprev, ha.entry x (by simp)]
    have hne : c.prev tail ≠ head := by
      rw [hprev]
      exact fun e => ha.head_not_mem (e ▸ by simp)
    rw [popOldest_eq_strike hne hentry, hprev]
    refine ⟨by simp, xs, ?_, by simp⟩
    have hlast : Arena (Arena.strike c x.1 x.2.1) (xs ++ []) := ha.remove
    rwa [List.append_nil] at hlast

theorem insert (h : c.Shows es) (key : K) (value : V) :
    (c.insert key value).1 = (Recency.insert c.capacity es key value).1 ∧
      (c.insert key value).2.Shows (Recency.insert c.capacity es key value).2 := by
  have hnd := h.nodup_keys
  rcases h.located key with ⟨hi, hk⟩ | ⟨n, as, bs, old, hi, ha, rfl⟩
  · have hnone : ¬ (find? es key).isSome = true := by
      rw [find?_eq_none_iff.mpr hk]
      exact Bool.false_ne_true
    rw [insert_of_new hi, Recency.insert, if_neg hnone, h.size_eq]
    by_cases hroom : es.length < c.capacity
    · rw [if_pos hroom, if_neg (Nat.not_le.mpr hroom)]
      obtain ⟨chain, ha, rfl⟩ := h
      exact ⟨rfl, _, ha.add hi (by simpa using hroom) value, by simp⟩
    · rw [if_neg hroom, if_pos (Nat.not_lt.mp hroom)]
      have hpop := h.popOldest
      refine ⟨hpop.1, ?_⟩
      -- the last entry has left, so there is room, and its key is another one
      have hlen : es.dropLast.length < c.capacity := by
        have := h.length_le
        have := h.capacity_pos
        rw [List.length_dropLast]
        omega
      have hcapacity : c.popOldest.2.capacity = c.capacity := capacity_popOldest c
      have hk' : key ∉ es.dropLast.map (·.1) := fun hm =>
        hk (((List.dropLast_sublist es).map (·.1)).subset hm)
      have hi' : c.popOldest.2.index[key]? = none := by
        rcases hpop.2.located key with ⟨hi', -⟩ | ⟨_, _, _, _, _, _, hsplit⟩
        · exact hi'
        · exact absurd (hsplit ▸ by simp) hk'
      obtain ⟨chain, ha, hes⟩ := hpop.2
      have hchain : chain.length = es.dropLast.length := by rw [← hes, List.length_map]
      exact ⟨_, ha.add hi' (by rw [hcapacity]; omega) value, by simp [hes]⟩
  · have hsome : (find? (entriesOf as ++ (key, old) :: entriesOf bs) key).isSome = true := by
      rw [find?_split hnd]
      rfl
    rw [insert_of_old hi, Recency.insert, if_pos hsome, without_split hnd]
    have hlt : n < c.nodes.size := (ha.node_range (x := (n, key, old)) (by simp)).2
    have hset : Arena (c.setEntry n (some (key, value))) (as ++ (n, key, value) :: bs) :=
      ha.setValue (by simp) (by simp) (content?_setEntry c hlt) (by simp) rfl rfl rfl
    exact ⟨rfl, _, hset.moveToFront, by simp⟩

end Keys

end Shows

theorem shows_empty [Std.TransOrd K] {capacity : Nat} (h : 0 < capacity) :
    (empty capacity : Lru K V).Shows [] :=
  ⟨[], arena_empty h, rfl⟩

/-! ## 3. Histories -/

/-- What one can do with a cache. -/
inductive Op (K V : Type) where
  | insert (key : K) (value : V)
  | get (key : K)
  | replace (key : K) (value : V)
  | peek (key : K)
  | contains (key : K)
  | oldest
  | oldestWhere (accept : K → V → Bool)
  | erase (key : K)
  | popOldest
  | entries
  | values

inductive Answer (K V : Type) where
  | value (value : Option V)
  | entry (entry : Option (K × V))
  | found (there : Bool)
  | entries (entries : List (K × V))
  | values (values : List V)

/-- What is seen of an operation: its answer, and behind it the number of the entries and all of
them, the most recently used first. -/
structure Sight (K V : Type) where
  answer : Answer K V
  size : Nat
  order : List (K × V)

def perform (c : Lru K V) : Op K V → Answer K V × Lru K V
  | .insert key value => let (left, c) := c.insert key value; (.entry left, c)
  | .get key => let (value, c) := c.get? key; (.value value, c)
  | .replace key value => let (old, c) := c.replace? key value; (.value old, c)
  | .peek key => (.value (c.peek? key), c)
  | .contains key => (.found (c.contains key), c)
  | .oldest => (.entry c.oldest?, c)
  | .oldestWhere accept => (.entry (c.oldestWhere? accept), c)
  | .erase key => let (value, c) := c.erase key; (.value value, c)
  | .popOldest => let (entry, c) := c.popOldest; (.entry entry, c)
  | .entries => (.entries c.toList, c)
  | .values => (.values c.values, c)

/-- What is seen of a history, operation by operation. -/
def observe (c : Lru K V) : List (Op K V) → List (Sight K V)
  | [] => []
  | op :: ops =>
    let (answer, c) := c.perform op
    ⟨answer, c.size, c.toList⟩ :: c.observe ops

end Lru

namespace Recency

variable {K V : Type} [DecidableEq K]

/-- The operation on the list, for at most `capacity` entries. -/
def perform (capacity : Nat) (es : List (K × V)) : Lru.Op K V → Lru.Answer K V × List (K × V)
  | .insert key value => let (left, es) := insert capacity es key value; (.entry left, es)
  | .get key => (.value (find? es key), touch es key)
  | .replace key value => (.value (find? es key), replace es key value)
  | .peek key => (.value (find? es key), es)
  | .contains key => (.found (find? es key).isSome, es)
  | .oldest => (.entry es.getLast?, es)
  | .oldestWhere accept => (.entry (es.reverse.find? fun e => accept e.1 e.2), es)
  | .erase key => (.value (find? es key), without es key)
  | .popOldest => (.entry es.getLast?, es.dropLast)
  | .entries => (.entries es, es)
  | .values => (.values (es.map (·.2)), es)

def observe (capacity : Nat) (es : List (K × V)) : List (Lru.Op K V) → List (Lru.Sight K V)
  | [] => []
  | op :: ops =>
    let (answer, es) := perform capacity es op
    ⟨answer, es.length, es⟩ :: observe capacity es ops

end Recency

namespace Lru

variable {K V : Type} [Ord K] [DecidableEq K] [Std.TransOrd K] [Std.LawfulEqOrd K]

omit [DecidableEq K] [Std.TransOrd K] [Std.LawfulEqOrd K] in
theorem capacity_perform (c : Lru K V) (op : Op K V) : (c.perform op).2.capacity = c.capacity := by
  cases op <;> simp [perform, get?, replace?]

/-- **One operation.**  It answers what the list answers, and shows the list that it leaves. -/
theorem Shows.perform {c : Lru K V} {es : List (K × V)} (h : c.Shows es) (op : Op K V) :
    (c.perform op).1 = (Recency.perform c.capacity es op).1 ∧
      (c.perform op).2.Shows (Recency.perform c.capacity es op).2 := by
  cases op with
  | insert key value =>
    have hi := h.insert key value
    exact ⟨congrArg Answer.entry hi.1, hi.2⟩
  | get key => exact ⟨congrArg Answer.value (h.peek?_eq key), h.touch key⟩
  | replace key value =>
    have hr := (h.touch key).modify key fun _ => value
    rw [Recency.modify_touch_eq_replace] at hr
    exact ⟨congrArg Answer.value (h.peek?_eq key), hr⟩
  | peek key => exact ⟨congrArg Answer.value (h.peek?_eq key), h⟩
  | contains key => exact ⟨congrArg Answer.found (h.contains_eq key), h⟩
  | oldest => exact ⟨congrArg Answer.entry h.oldest?_eq, h⟩
  | oldestWhere accept => exact ⟨congrArg Answer.entry (h.oldestWhere?_eq accept), h⟩
  | erase key =>
    have he := h.erase key
    exact ⟨congrArg Answer.value he.1, he.2⟩
  | popOldest =>
    have hp := h.popOldest
    exact ⟨congrArg Answer.entry hp.1, hp.2⟩
  | entries => exact ⟨congrArg Answer.entries h.toList_eq, h⟩
  | values => exact ⟨congrArg Answer.values h.values_eq, h⟩

/-- A history on an arena that shows a list is seen as the history on the list, and at no point
does the list outgrow the capacity or hold a key twice. -/
theorem Shows.observe {c : Lru K V} {es : List (K × V)} (h : c.Shows es) (ops : List (Op K V)) :
    c.observe ops = Recency.observe c.capacity es ops ∧
      ∀ s ∈ c.observe ops, s.order.length ≤ c.capacity ∧ (s.order.map (·.1)).Nodup := by
  induction ops generalizing c es with
  | nil => exact ⟨rfl, fun _ hs => absurd hs List.not_mem_nil⟩
  | cons op ops ih =>
    obtain ⟨hanswer, hshows⟩ := h.perform op
    have hcapacity : (c.perform op).2.capacity = c.capacity := capacity_perform c op
    have hrest := ih hshows
    rw [hcapacity] at hrest
    simp only [Lru.observe, Recency.observe, hanswer, hshows.size_eq, hshows.toList_eq, hrest.1]
    refine ⟨trivial, fun s hs => ?_⟩
    rcases List.mem_cons.mp hs with rfl | hs
    · exact ⟨hcapacity ▸ hshows.length_le, hshows.nodup_keys⟩
    · exact hrest.2 s (hrest.1 ▸ hs)

/-- **The cache is the recency list.**  There is a map of every capacity but zero, and no history
on it is seen otherwise than on the empty list. -/
theorem observe_eq_recency {capacity : Nat} (h : 0 < capacity) :
    ∃ c : Lru K V, make capacity = .ok c ∧ ∀ ops : List (Op K V),
      c.observe ops = Recency.observe capacity [] ops ∧
        ∀ s ∈ c.observe ops, s.order.length ≤ capacity ∧ (s.order.map (·.1)).Nodup :=
  ⟨empty capacity, if_neg h.ne', (shows_empty h).observe⟩

/-- A full map of one page makes room for another. -/
theorem observe_eq_recency_one :
    ∃ c : Lru PageId Nat, make 1 = .ok c ∧ ∀ ops : List (Op PageId Nat),
      c.observe ops = Recency.observe 1 [] ops ∧
        ∀ s ∈ c.observe ops, s.order.length ≤ 1 ∧ (s.order.map (·.1)).Nodup :=
  observe_eq_recency Nat.one_pos

end Lru
end RowStore
