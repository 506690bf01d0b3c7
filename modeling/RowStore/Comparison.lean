/-
# Comparisons

The seven comparisons of a condition.  Values of different kinds satisfy none of them, not even
`<>`.  `LIKE` asks whether one text occurs in another; on numbers it is equality.
-/
import RowStore.Value

namespace RowStore

inductive Comparison where
  | eq
  | ne
  | gt
  | ge
  | lt
  | le
  | like
deriving DecidableEq, Repr, Inhabited

namespace Comparison

def render : Comparison → String
  | eq => "="
  | ne => "<>"
  | gt => ">"
  | ge => ">="
  | lt => "<"
  | le => "<="
  | like => "LIKE"

/-- Whether the comparison accepts the order of its two operands. -/
def accepts : Comparison → Ordering → Bool
  | eq, o | like, o => o == .eq
  | ne, o => o != .eq
  | gt, o => o == .gt
  | ge, o => o != .lt
  | lt, o => o == .lt
  | le, o => o != .gt

/-- `part` stands somewhere in the bytes.  The empty text stands everywhere. -/
def occurs (part : Bytes) : Bytes → Bool
  | [] => part.isEmpty
  | b :: rest => part.isPrefixOf (b :: rest) || occurs part rest

/-- `left` compares with `right` as the comparison says. -/
def holds : Comparison → Value → Value → Bool
  | like, .text l, .text r => occurs (Utf8.encode r) (Utf8.encode l)
  | c, l, r => (l.compare? r).any c.accepts

end Comparison
end RowStore
