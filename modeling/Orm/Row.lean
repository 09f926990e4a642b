import Orm.Value.ScalarType

/-
Rows of results.
-/

namespace Orm

/-- Values with the names of their columns. -/
structure Row where
  columns : List String
  values : List Value
  sameLength : columns.length = values.length
  deriving Repr

namespace Row

/-- Names and values that belong together one by one. -/
def of? (columns : List String) (values : List Value) : Option Row :=
  if h : columns.length = values.length then some ⟨columns, values, h⟩ else none

def size (r : Row) : Nat := r.columns.length

/-- The value of the first column of that name. -/
def value? (r : Row) (column : String) : Option Value :=
  (r.columns.zip r.values).lookup column

def get (r : Row) (column : String) : Result Value :=
  match r.value? column with
  | some v => .ok v
  | none => .error (.unknownField "<row>" column)

def atIndex (r : Row) (i : Nat) : Result Value :=
  match r.values[i]? with
  | some v => .ok v
  | none => .error (.typeMismatch ("column index " ++ toString i ++ " out of bounds (row has " ++
      toString r.values.length ++ " columns)"))

end Row

end Orm
