/-
# Rows

A row has a schema, a value for each column and, once it is stored, the place where it
stands.  The values fit the columns by construction.  Two rows have the same content if their
schemas and values are equal, wherever they are stored.
-/
import RowStore.Error

namespace RowStore

structure Row where
  schema : Schema
  values : List Value
  /-- Where the row is stored, if it is. -/
  place : Option RecordId := none
  /-- The values fit the columns. -/
  fits : schema.admits values
deriving DecidableEq

namespace Row

/-- The two rows have equal schemas and values. -/
def sameContent (a b : Row) : Bool := a.schema == b.schema && a.values == b.values

def value? (row : Row) (field : Nat) : Option Value := row.values[field]?

/-- The value of the leftmost column of the name. -/
def valueOf? (row : Row) (name : String) : Option Value :=
  (row.schema.indexOf? name).bind row.value?

/-- The same row, stored at the place or nowhere. -/
def movedTo (row : Row) (place : Option RecordId) : Row := { row with place }

/-- The values of the left row, then those of the right one.  The new row is stored nowhere. -/
def append (l r : Row) : Row :=
  ⟨l.schema ++ r.schema, l.values ++ r.values, none, Schema.admits_append l.fits r.fits⟩

instance : Append Row := ⟨append⟩

def render (row : Row) : String := Value.renderRow row.values

/-- Why the values are no row of the schema: their number is looked at first, then the first
value that does not fit. -/
def fault (schema : Schema) (values : List Value) : SchemaFault :=
  if values.length ≠ schema.columns.length then
    .valueCount schema.columns.length values.length
  else match (values.zip schema.columns).find? fun (v, c) => !v.fits c.type with
    | some (v, c) => .valueMisfit v c
    | none => .valueCount schema.columns.length values.length

/-- The row of the values, stored nowhere. -/
def make (schema : Schema) (values : List Value) : Except Error Row :=
  if h : schema.admits values then .ok ⟨schema, values, none, h⟩
  else .error (.schema (fault schema values))

end Row
end RowStore
