/-
# Histograms of texts

A text counts as the number that its first four bytes spell, the first byte the most
significant; shorter texts are filled up with zeros.  So the order of the numbers is that of
the texts, as far as four bytes tell.  Everything from `zzzz` on counts as `zzzz`.
-/
import RowStore.Encoding.Utf8
import RowStore.Histogram.Numbers

namespace RowStore

structure TextHistogram where
  keys : NumberHistogram
deriving DecidableEq, Repr

namespace TextHistogram

/-- The number that the first `places` bytes spell. -/
def spell : (places : Nat) → Bytes → Nat
  | 0, _ => 0
  | places + 1, bytes => (bytes.headD 0).toNat * Nat.pow 256 places + spell places bytes.tail

/-- The number of the first four bytes of a text. -/
def rawKey (text : String) : Nat := spell 4 (Utf8.encode text)

/-- The greatest key. -/
def lastKey : Nat := rawKey "zzzz"

/-- The number that a text counts as. -/
def key (text : String) : Nat := min (rawKey text) lastKey

def make (buckets : Nat) : Except Error TextHistogram :=
  (NumberHistogram.make buckets (rawKey "") lastKey).map TextHistogram.mk

def add (h : TextHistogram) (text : String) : TextHistogram := ⟨h.keys.add (key text)⟩

/-- The part of the texts for which the comparison with `text` is estimated to hold. -/
def estimate {α : Type} [Scalar α] (h : TextHistogram) (c : Comparison) (text : String) : α :=
  h.keys.estimate c (key text)

def render (h : TextHistogram) : String := "StringHistogram over " ++ h.keys.render

end TextHistogram
end RowStore
