/-
# Schemas

A schema is the ordered list of a table's columns, or of those of an operator's output.  The
output of a join has the columns of both sides, so a name may occur more than once; a name
then stands for its leftmost column.
-/
import RowStore.Value

namespace RowStore

structure Column where
  name : String
  type : DataType
deriving DecidableEq, Repr, Inhabited

structure Schema where
  columns : List Column
deriving DecidableEq, Repr, Inhabited

namespace Schema

/-- The bytes that a row takes. -/
def width (schema : Schema) : Nat := go schema.columns
where
  /-- The same for a list of columns. -/
  go : List Column → Nat
    | [] => 0
    | c :: cs => c.type.width + go cs

def column? (schema : Schema) (field : Nat) : Option Column := schema.columns[field]?

/-- The place of the leftmost column of the name. -/
def indexOf? (schema : Schema) (name : String) : Option Nat :=
  schema.columns.findIdx? (·.name == name)

/-- The columns of the left schema, then those of the right one. -/
def append (left right : Schema) : Schema := ⟨left.columns ++ right.columns⟩

instance : Append Schema := ⟨append⟩

@[simp] theorem columns_append (left right : Schema) :
    (left ++ right).columns = left.columns ++ right.columns := rfl

theorem width_go_append (cs cs' : List Column) :
    width.go (cs ++ cs') = width.go cs + width.go cs' := by
  induction cs with
  | nil => simp [width.go]
  | cons c cs ih => simp [width.go, ih, Nat.add_assoc]

@[simp] theorem width_append (left right : Schema) :
    (left ++ right).width = left.width + right.width := width_go_append _ _

/-- One value for each column, each of the column's kind and no longer than the column. -/
def admits (schema : Schema) (values : List Value) : Bool := go schema.columns values
where
  /-- The same for a list of columns. -/
  go : List Column → List Value → Bool
    | [], [] => true
    | c :: cs, v :: vs => v.fits c.type && go cs vs
    | _, _ => false

theorem admits_go_append {cs cs' : List Column} {vs vs' : List Value}
    (h : admits.go cs vs) (h' : admits.go cs' vs') : admits.go (cs ++ cs') (vs ++ vs') := by
  fun_induction admits.go cs vs with
  | case1 => exact h'
  | case2 c cs v vs ih =>
    simp only [Bool.and_eq_true] at h
    simp only [List.cons_append, admits.go, h.1, ih h.2, Bool.and_self]
  | case3 => simp at h

theorem admits_append {left right : Schema} {vs vs' : List Value}
    (h : left.admits vs) (h' : right.admits vs') : (left ++ right).admits (vs ++ vs') :=
  admits_go_append h h'

end Schema
end RowStore
