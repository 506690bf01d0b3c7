/-
# A bounded map that knows how recently each key was used

The entries stand in a doubly linked list, the most recently used first.  The list runs through
an array of nodes: nodes 0 and 1 are its two ends and hold no entry, the nodes of removed entries
are kept for later ones, and an index leads from each key to its node.  So an entry is found,
moved or removed without a walk along the list.

A new key in a full map takes the place of the least recently used one, which is handed back.

Reading and replacing a value make its key the most recently used; looking at it, and
`modify`, do not.
-/
import RowStore.Error
import Std.Data.TreeMap

namespace RowStore

/-- A node of the recency list, with the numbers of its neighbours. -/
structure Lru.Node (K V : Type) where
  entry : Option (K × V)
  prev : Nat
  next : Nat

structure Lru (K V : Type) [Ord K] where
  capacity : Nat
  nodes : Array (Lru.Node K V)
  /-- The nodes that removed entries have left. -/
  free : List Nat
  index : Std.TreeMap K Nat

namespace Lru

variable {K V : Type} [Ord K]

/-- The end of the list before the most recently used entry. -/
def head : Nat := 0

/-- The end of the list behind the least recently used entry. -/
def tail : Nat := 1

/-- The map without entries, for at most `capacity` of them. -/
def empty (capacity : Nat) : Lru K V where
  capacity := capacity
  nodes := #[⟨none, head, tail⟩, ⟨none, head, tail⟩]
  free := []
  index := ∅

/-- A map for at most `capacity` entries, of which there must be one. -/
def make (capacity : Nat) : Except Error (Lru K V) :=
  if capacity = 0 then .error .zeroCapacity else .ok (empty capacity)

/-! ## 1. The list -/

def next (c : Lru K V) (node : Nat) : Nat := (c.nodes[node]?.map (·.next)).getD tail

def prev (c : Lru K V) (node : Nat) : Nat := (c.nodes[node]?.map (·.prev)).getD head

def content? (c : Lru K V) (node : Nat) : Option (K × V) := (c.nodes[node]?.map (·.entry)).join

def setNext (c : Lru K V) (node target : Nat) : Lru K V :=
  { c with nodes := c.nodes.modify node fun n => { n with next := target } }

def setPrev (c : Lru K V) (node target : Nat) : Lru K V :=
  { c with nodes := c.nodes.modify node fun n => { n with prev := target } }

def setEntry (c : Lru K V) (node : Nat) (entry : Option (K × V)) : Lru K V :=
  { c with nodes := c.nodes.modify node fun n => { n with entry := entry } }

/-- Takes a node out of the list: its neighbours become neighbours of each other. -/
def unlink (c : Lru K V) (node : Nat) : Lru K V :=
  let before := c.prev node
  let after := c.next node
  (c.setNext before after).setPrev after before

/-- Puts a node in front of the list. -/
def linkFront (c : Lru K V) (node : Nat) : Lru K V :=
  let first := c.next head
  (((c.setPrev node head).setNext node first).setPrev first node).setNext head node

def moveToFront (c : Lru K V) (node : Nat) : Lru K V :=
  if c.next head = node then c else (c.unlink node).linkFront node

/-- A node for a new entry: one that was left, or else a new one. -/
def alloc (c : Lru K V) (entry : K × V) : Nat × Lru K V :=
  match c.free with
  | node :: free =>
    (node, { c with free, nodes := c.nodes.setIfInBounds node ⟨some entry, head, tail⟩ })
  | [] => (c.nodes.size, { c with nodes := c.nodes.push ⟨some entry, head, tail⟩ })

/-- Takes the entry out of a node and keeps the node for a later one. -/
def release (c : Lru K V) (node : Nat) : Option (K × V) × Lru K V :=
  (c.content? node, { c.setEntry node none with free := node :: c.free })

/-- The entries from `node` on, towards the least recently used.  No list is longer than the
array of its nodes. -/
def walk (c : Lru K V) : (fuel node : Nat) → List (K × V)
  | 0, _ => []
  | fuel + 1, node =>
    if node = tail then [] else (c.content? node).toList ++ c.walk fuel (c.next node)

/-- The entries from `node` on, towards the most recently used. -/
def walkBack (c : Lru K V) : (fuel node : Nat) → List (K × V)
  | 0, _ => []
  | fuel + 1, node =>
    if node = head then [] else (c.content? node).toList ++ c.walkBack fuel (c.prev node)

/-! ## 2. Looking -/

def size (c : Lru K V) : Nat := c.index.size

def isEmpty (c : Lru K V) : Bool := c.index.isEmpty

def contains (c : Lru K V) (key : K) : Bool := c.index.contains key

/-- The entries, the most recently used first. -/
def toList (c : Lru K V) : List (K × V) := c.walk c.nodes.size (c.next head)

/-- The values, that of the most recently used key first. -/
def values (c : Lru K V) : List V := c.toList.map (·.2)

def peek? (c : Lru K V) (key : K) : Option V := do
  let node ← c.index[key]?
  let entry ← c.content? node
  return entry.2

/-- The least recently used entry: the one that a new key would replace. -/
def oldest? (c : Lru K V) : Option (K × V) := c.content? (c.prev tail)

/-- The least recently used entry that is accepted. -/
def oldestWhere? (c : Lru K V) (accept : K → V → Bool) : Option (K × V) :=
  (c.walkBack c.nodes.size (c.prev tail)).find? fun (k, v) => accept k v

/-! ## 3. Using -/

/-- Makes the key the most recently used, if it is there. -/
def touch (c : Lru K V) (key : K) : Lru K V :=
  match c.index[key]? with
  | none => c
  | some node => c.moveToFront node

/-- Reads a value. -/
def get? (c : Lru K V) (key : K) : Option V × Lru K V :=
  (c.peek? key, c.touch key)

/-- Changes the value of a key and leaves the order of use as it is. -/
def modify (c : Lru K V) (key : K) (change : V → V) : Lru K V :=
  match c.index[key]? with
  | none => c
  | some node =>
    { c with nodes := c.nodes.modify node fun n =>
        { n with entry := n.entry.map fun (k, v) => (k, change v) } }

/-- Replaces the value of a key that is there; first, the value it had. -/
def replace? (c : Lru K V) (key : K) (value : V) : Option V × Lru K V :=
  (c.peek? key, (c.touch key).modify key fun _ => value)

/-- Removes a key; first, its value. -/
def erase (c : Lru K V) (key : K) : Option V × Lru K V :=
  match c.index[key]? with
  | none => (none, c)
  | some node =>
    let (entry, c) := ({ c with index := c.index.erase key }.unlink node).release node
    (entry.map (·.2), c)

/-- Removes the least recently used entry. -/
def popOldest (c : Lru K V) : Option (K × V) × Lru K V :=
  let node := c.prev tail
  if node = head then (none, c)
  else match (c.unlink node).release node with
    | (none, c) => (none, c)
    | (some entry, c) => (some entry, { c with index := c.index.erase entry.1 })

/-- Sets the value of a key and makes it the most recently used.  First, the entry that had to
leave for a new key. -/
def insert (c : Lru K V) (key : K) (value : V) : Option (K × V) × Lru K V :=
  match c.index[key]? with
  | some node => (none, (c.setEntry node (some (key, value))).moveToFront node)
  | none =>
    let (left, c) := if c.capacity ≤ c.size then c.popOldest else (none, c)
    let (node, c) := c.alloc (key, value)
    let c := c.linkFront node
    (left, { c with index := c.index.insert key node })

end Lru
end RowStore
