/-
# Column types

A column holds numbers or texts.  Every value of a column takes the same number of bytes, so
that rows fit slots of one size.
-/

namespace RowStore

inductive DataType where
  /-- Signed numbers of thirty-two bits. -/
  | int
  /-- Texts of at most `limit` bytes. -/
  | text (limit : UInt16)
deriving DecidableEq, Repr, Inhabited

namespace DataType

/-- The bytes that a value of the type takes: a text has its length in front. -/
def width : DataType → Nat
  | int => 4
  | text limit => 4 + limit.toNat

/-- Values of the two types can be ordered against each other. -/
def comparable : DataType → DataType → Bool
  | int, int => true
  | text _, text _ => true
  | _, _ => false

def render : DataType → String
  | int => "INT"
  | text limit => s!"STRING({limit.toNat})"

theorem four_le_width (t : DataType) : 4 ≤ t.width := by
  cases t <;> simp [width]

end DataType
end RowStore
