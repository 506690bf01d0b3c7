/-
# Values

A value is a number or a text.  Values of one kind are ordered, numbers by size and texts by
their bytes; values of different kinds are not comparable.
-/
import RowStore.DataType
import RowStore.Encoding.Utf8

namespace RowStore

inductive Value where
  | int (number : Int32)
  | text (content : String)
deriving DecidableEq, Inhabited

namespace Value

/-- The value can be stored in a column of the type. -/
def fits : Value → DataType → Bool
  | int _, .int => true
  | text s, .text limit => Utf8.size s ≤ limit.toNat
  | _, _ => false

/-- The order of two values of one kind. -/
def compare? : Value → Value → Option Ordering
  | int a, int b => some (compare a.toInt b.toInt)
  | text a, text b => some (compare (Utf8.encode a) (Utf8.encode b))
  | _, _ => none

def asInt? : Value → Option Int32
  | int n => some n
  | text _ => none

def asText? : Value → Option String
  | text s => some s
  | int _ => none

/-- Numbers in decimal, texts between single quotes. -/
def render : Value → String
  | int n => n.toInt.repr
  | text s => "'" ++ s ++ "'"

/-- A row of values, between parentheses. -/
def renderRow (values : List Value) : String :=
  "(" ++ ", ".intercalate (values.map render) ++ ")"

end Value
end RowStore
