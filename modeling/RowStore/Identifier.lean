/-
# Where things are stored

A table has a number, a page a number within its table, a row a slot within its page.
Pages are ordered by table first, then by their place in the file.

Numbers of pages have no bound here.  In words of thirty-two bits they come out alike as long as every
table has fewer than `2 ^ 32` pages; the number that follows the last one would be zero again.
-/

namespace RowStore

/-- The number of a table, given out when its file is opened. -/
abbrev TableId := Nat

/-- How a table number is shown. -/
def TableId.render (table : TableId) : String := s!"TableId({table})"

/-- A page: its table and its place in the table's file. -/
structure PageId where
  table : TableId
  number : Nat
deriving DecidableEq, Repr, Inhabited

namespace PageId

def render (page : PageId) : String := s!"PageId({page.table}, {page.number})"

/-- Where the page starts in a file of pages of `pageSize` bytes. -/
def offset (page : PageId) (pageSize : Nat) : Nat := page.number * pageSize

instance : Ord PageId := ⟨compareLex (compareOn PageId.table) (compareOn PageId.number)⟩

instance : Std.TransOrd PageId :=
  inferInstanceAs (Std.TransCmp (compareLex (compareOn PageId.table) (compareOn PageId.number)))

instance : Std.LawfulEqOrd PageId where
  eq_of_compare {a b} h := by
    obtain ⟨t, n⟩ := a
    obtain ⟨t', n'⟩ := b
    change compareLex (compareOn PageId.table) (compareOn PageId.number) _ _ = .eq at h
    simp only [compareLex, compareOn, Ordering.then_eq_eq, Nat.compare_eq_eq] at h
    rw [h.1, h.2]

end PageId

/-- The place of a stored row: a slot of a page. -/
structure RecordId where
  page : PageId
  slot : Nat
deriving DecidableEq, Repr, Inhabited

end RowStore
