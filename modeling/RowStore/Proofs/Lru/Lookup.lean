/-
# The cache as a finite map

Whoever only asks which value a key has need not know the order of use.  For each operation this
file says what `peek?` finds behind it, and how many entries there are; `InOrder` is what has to
hold for that, and every operation keeps it.
-/
import RowStore.Proofs.Lru.Recency

namespace RowStore

/-! ## 1. Finding in the list -/

namespace Recency

variable {K V : Type} [DecidableEq K]

theorem find?_cons (es : List (K × V)) (key k : K) (value : V) :
    find? ((key, value) :: es) k = if k = key then some value else find? es k := by
  by_cases h : k = key
  · subst h
    simp [find?]
  · have hne : key ≠ k := Ne.symm h
    simp [find?, h, hne]

theorem find?_without (es : List (K × V)) (key k : K) :
    find? (without es key) k = if k = key then none else find? es k := by
  induction es with
  | nil => simp [find?, without]
  | cons e es ih =>
    obtain ⟨key', value⟩ := e
    by_cases he : key' = key
    · have hdrop : without ((key', value) :: es) key = without es key := by simp [without, he]
      rw [hdrop, ih, find?_cons, he]
      split <;> rfl
    · have hkeep : without ((key', value) :: es) key = (key', value) :: without es key := by
        simp [without, he]
      rw [hkeep, find?_cons, find?_cons, ih]
      by_cases hk : k = key'
      · rw [if_pos hk, if_pos hk, if_neg (hk ▸ he)]
      · rw [if_neg hk, if_neg hk]

theorem find?_touch (es : List (K × V)) (key k : K) : find? (touch es key) k = find? es k := by
  unfold touch
  split
  · rfl
  · rename_i value hfind
    rw [find?_cons, find?_without]
    split
    · rename_i hk
      rw [hk, hfind]
    · rfl

theorem find?_modify (es : List (K × V)) (key k : K) (change : V → V) :
    find? (modify es key change) k = if k = key then (find? es k).map change else find? es k := by
  induction es with
  | nil => simp [find?, modify]
  | cons e es ih =>
    obtain ⟨key', value⟩ := e
    have hcons : modify ((key', value) :: es) key change =
        (key', if key' = key then change value else value) :: modify es key change := by
      rw [modify, List.map_cons]
      split <;> rfl
    rw [hcons, find?_cons, find?_cons, ih]
    by_cases hk : k = key'
    · subst hk
      simp only [if_true]
      split <;> rfl
    · simp only [if_neg hk]

theorem length_without {es : List (K × V)} (hnd : (es.map (·.1)).Nodup) {key : K} {value : V}
    (h : find? es key = some value) : (without es key).length + 1 = es.length := by
  obtain ⟨as, bs, rfl⟩ := List.append_of_mem ((find?_eq_some_iff hnd).mp h)
  rw [without_split hnd]
  simp only [List.length_append, List.length_cons]
  omega

theorem length_modify (es : List (K × V)) (key : K) (change : V → V) :
    (modify es key change).length = es.length := List.length_map _

end Recency

/-! ## 2. Finding in the cache -/

namespace Lru

variable {K V : Type} [Ord K]

/-- The cache shows some list. -/
def InOrder (c : Lru K V) : Prop := ∃ es, c.Shows es

theorem Shows.inOrder {c : Lru K V} {es : List (K × V)} (h : c.Shows es) : c.InOrder := ⟨es, h⟩

namespace InOrder

variable {c : Lru K V}

theorem shows (h : c.InOrder) : c.Shows c.toList := by
  obtain ⟨es, hes⟩ := h
  rwa [hes.toList_eq]

theorem size_le (h : c.InOrder) : c.size ≤ c.capacity := by
  rw [h.shows.size_eq]
  exact h.shows.length_le

theorem capacity_pos (h : c.InOrder) : 0 < c.capacity := h.shows.capacity_pos

variable [DecidableEq K]

theorem mem_toList (h : c.InOrder) {key : K} {value : V} :
    (key, value) ∈ c.toList ↔ c.peek? key = some value := by
  rw [h.shows.peek?_eq, Recency.find?_eq_some_iff h.shows.nodup_keys]

/-- What stands in the list is found. -/
theorem peek?_of_split (h : c.InOrder) {newer older : List (K × V)} {key : K} {value : V}
    (hlist : c.toList = newer ++ (key, value) :: older) : c.peek? key = some value := by
  rw [← h.mem_toList, hlist]
  exact List.mem_append_right _ List.mem_cons_self

theorem touch (h : c.InOrder) (key : K) : (c.touch key).InOrder := (h.shows.touch key).inOrder

theorem peek?_touch (h : c.InOrder) (key k : K) : (c.touch key).peek? k = c.peek? k := by
  rw [(h.shows.touch key).peek?_eq, Recency.find?_touch, h.shows.peek?_eq]

theorem modify (h : c.InOrder) (key : K) (change : V → V) : (c.modify key change).InOrder :=
  (h.shows.modify key change).inOrder

theorem peek?_modify (h : c.InOrder) (key : K) (change : V → V) (k : K) :
    (c.modify key change).peek? k =
      if k = key then (c.peek? k).map change else c.peek? k := by
  rw [(h.shows.modify key change).peek?_eq, Recency.find?_modify, h.shows.peek?_eq]

theorem size_modify (h : c.InOrder) (key : K) (change : V → V) :
    (c.modify key change).size = c.size := by
  rw [(h.shows.modify key change).size_eq, Recency.length_modify, h.shows.size_eq]

/-- What is found from the old end is an entry, and accepted. -/
theorem peek?_of_oldestWhere? (h : c.InOrder) {accept : K → V → Bool} {key : K} {value : V}
    (ho : c.oldestWhere? accept = some (key, value)) :
    c.peek? key = some value ∧ accept key value := by
  rw [h.shows.oldestWhere?_eq] at ho
  have hmem : (key, value) ∈ c.toList.reverse := List.mem_of_find?_eq_some ho
  have haccept := List.find?_some ho
  exact ⟨h.mem_toList.mp (List.mem_reverse.mp hmem), haccept⟩

theorem not_accept_of_oldestWhere? (h : c.InOrder) {accept : K → V → Bool}
    (ho : c.oldestWhere? accept = none) {key : K} {value : V} (hv : c.peek? key = some value) :
    ¬ accept key value := by
  rw [h.shows.oldestWhere?_eq, List.find?_eq_none] at ho
  exact ho (key, value) (List.mem_reverse.mpr (h.mem_toList.mpr hv))

/-- A cache with entries has one that is found. -/
theorem exists_peek?_of_size (h : c.InOrder) (hsize : 0 < c.size) :
    ∃ key value, c.peek? key = some value := by
  rw [h.shows.size_eq, List.length_pos_iff_exists_mem] at hsize
  obtain ⟨⟨key, value⟩, he⟩ := hsize
  exact ⟨key, value, h.mem_toList.mp he⟩

variable [Std.TransOrd K] [Std.LawfulEqOrd K]

theorem erase (h : c.InOrder) (key : K) : (c.erase key).2.InOrder :=
  (h.shows.erase key).2.inOrder

theorem peek?_erase (h : c.InOrder) (key k : K) :
    (c.erase key).2.peek? k = if k = key then none else c.peek? k := by
  rw [(h.shows.erase key).2.peek?_eq, Recency.find?_without, h.shows.peek?_eq]

theorem fst_erase (h : c.InOrder) (key : K) : (c.erase key).1 = c.peek? key := by
  rw [(h.shows.erase key).1, h.shows.peek?_eq]

theorem size_erase (h : c.InOrder) {key : K} {value : V} (hv : c.peek? key = some value) :
    (c.erase key).2.size + 1 = c.size := by
  rw [h.shows.peek?_eq] at hv
  rw [(h.shows.erase key).2.size_eq, h.shows.size_eq,
    Recency.length_without h.shows.nodup_keys hv]

theorem insert (h : c.InOrder) (key : K) (value : V) : (c.insert key value).2.InOrder :=
  (h.shows.insert key value).2.inOrder

/-- A new key comes in besides the old ones if there is room. -/
theorem peek?_insert (h : c.InOrder) {key : K} (hkey : c.peek? key = none)
    (hroom : c.size < c.capacity) (value : V) (k : K) :
    (c.insert key value).2.peek? k = if k = key then some value else c.peek? k := by
  rw [h.shows.peek?_eq] at hkey
  rw [h.shows.size_eq] at hroom
  rw [(h.shows.insert key value).2.peek?_eq, Recency.insert, hkey,
    if_neg (by simp), if_pos hroom, Recency.find?_cons, h.shows.peek?_eq]

/-! What is found behind a change was there before, or is what was changed. -/

omit [Std.TransOrd K] [Std.LawfulEqOrd K] in
theorem modify_cases (h : c.InOrder) {key k : K} {change : V → V} {value : V}
    (hv : (c.modify key change).peek? k = some value) :
    (k = key ∧ ∃ old, c.peek? key = some old ∧ value = change old) ∨
      (k ≠ key ∧ c.peek? k = some value) := by
  rw [h.peek?_modify] at hv
  by_cases hk : k = key
  · rw [if_pos hk, hk, Option.map_eq_some_iff] at hv
    obtain ⟨old, hold, rfl⟩ := hv
    exact Or.inl ⟨hk, old, hold, rfl⟩
  · rw [if_neg hk] at hv
    exact Or.inr ⟨hk, hv⟩

omit [Std.TransOrd K] [Std.LawfulEqOrd K] in
theorem exists_of_modify (h : c.InOrder) {key k : K} {change : V → V} {value : V}
    (hv : (c.modify key change).peek? k = some value) : ∃ old, c.peek? k = some old := by
  rcases h.modify_cases hv with ⟨rfl, old, hold, -⟩ | ⟨-, hold⟩
  · exact ⟨old, hold⟩
  · exact ⟨value, hold⟩

theorem erase_cases (h : c.InOrder) {key k : K} {value : V}
    (hv : (c.erase key).2.peek? k = some value) : k ≠ key ∧ c.peek? k = some value := by
  rw [h.peek?_erase] at hv
  by_cases hk : k = key
  · rw [if_pos hk] at hv
    cases hv
  · rw [if_neg hk] at hv
    exact ⟨hk, hv⟩

theorem insert_cases (h : c.InOrder) {key k : K} {value v : V} (hkey : c.peek? key = none)
    (hroom : c.size < c.capacity) (hv : (c.insert key value).2.peek? k = some v) :
    (k = key ∧ v = value) ∨ (k ≠ key ∧ c.peek? k = some v) := by
  rw [h.peek?_insert hkey hroom] at hv
  by_cases hk : k = key
  · rw [if_pos hk, Option.some.injEq] at hv
    exact Or.inl ⟨hk, hv.symm⟩
  · rw [if_neg hk] at hv
    exact Or.inr ⟨hk, hv⟩

/-- However full the map is, and whether or not the key was there, no other entry comes in. -/
theorem of_peek?_insert (h : c.InOrder) {key k : K} {value v : V}
    (hv : (c.insert key value).2.peek? k = some v) :
    (k = key ∧ v = value) ∨ c.peek? k = some v := by
  have hfront : ∀ rest ⊆ c.toList, (k, v) ∈ (key, value) :: rest →
      (k = key ∧ v = value) ∨ (k, v) ∈ c.toList := by
    intro rest hrest hmem
    rcases List.mem_cons.mp hmem with heq | hmem
    · cases heq
      exact Or.inl ⟨rfl, rfl⟩
    · exact Or.inr (hrest hmem)
  rw [← (h.insert key value).mem_toList, (h.shows.insert key value).2.toList_eq, Recency.insert]
    at hv
  rw [← h.mem_toList]
  split at hv
  · exact hfront _ List.filter_sublist.subset hv
  · split at hv
    · exact hfront _ (List.Subset.refl _) hv
    · exact hfront _ (List.dropLast_sublist _).subset hv

omit [Std.LawfulEqOrd K] in
theorem contains_eq (h : c.InOrder) (key : K) : c.contains key = (c.peek? key).isSome := by
  rw [h.shows.contains_eq, h.shows.peek?_eq]

omit [Std.LawfulEqOrd K] in
/-- There is nothing to take out where the key is not. -/
theorem erase_absent (h : c.InOrder) {key : K} (hv : c.peek? key = none) :
    (c.erase key).2 = c := by
  have hindex : (c.index[key]?).isSome = (c.peek? key).isSome :=
    Std.TreeMap.contains_eq_isSome_getElem?.symm.trans (h.contains_eq key)
  rw [hv, Option.isSome_none, Option.isSome_eq_false_iff, Option.isNone_iff_eq_none] at hindex
  simp only [Lru.erase, hindex]

/-! ## 3. Where in the list -/

omit [Std.TransOrd K] [Std.LawfulEqOrd K] in
/-- An entry that changes stays where it is. -/
theorem toList_modify (h : c.InOrder) {newer older : List (K × V)} {key : K} {value : V}
    (hlist : c.toList = newer ++ (key, value) :: older) (change : V → V) :
    (c.modify key change).toList = newer ++ (key, change value) :: older := by
  have hshows := h.shows
  rw [hlist] at hshows
  rw [(hshows.modify key change).toList_eq]
  exact @Recency.modify_split K V _ newer older (key, value) hshows.nodup_keys change

/-- The entries around one that leaves keep their order. -/
theorem toList_erase (h : c.InOrder) {newer older : List (K × V)} {key : K} {value : V}
    (hlist : c.toList = newer ++ (key, value) :: older) :
    (c.erase key).2.toList = newer ++ older := by
  have hshows := h.shows
  rw [hlist] at hshows
  rw [(hshows.erase key).2.toList_eq]
  exact @Recency.without_split K V _ newer older (key, value) hshows.nodup_keys

/-- A new entry stands in front. -/
theorem toList_insert (h : c.InOrder) {key : K} (hkey : c.peek? key = none)
    (hroom : c.size < c.capacity) (value : V) :
    (c.insert key value).2.toList = (key, value) :: c.toList := by
  rw [h.shows.peek?_eq] at hkey
  rw [h.shows.size_eq] at hroom
  rw [(h.shows.insert key value).2.toList_eq, Recency.insert, hkey, if_neg (by simp),
    if_pos hroom]

end InOrder

theorem inOrder_empty [Std.TransOrd K] {capacity : Nat} (h : 0 < capacity) :
    (empty capacity : Lru K V).InOrder := (shows_empty h).inOrder

@[simp] theorem peek?_empty [Std.TransOrd K] (capacity : Nat) (key : K) :
    (empty capacity : Lru K V).peek? key = none := by
  simp [peek?, empty]

end Lru
end RowStore
