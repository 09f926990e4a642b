import Orm.Calendar.DateTime
import Orm.Json.Basic
import Orm.Uuid

/-
The values that statements carry: the parameters they bind and the columns they return.
-/

namespace Orm

inductive Value where
  | null
  | bool (b : Bool)
  | int (n : Int64)
  | float (x : Number.Binary64)
  | string (s : String)
  | bytes (b : List UInt8)
  | date (d : Calendar.Date)
  /-- A date and time without a zone. -/
  | dateTime (t : Calendar.DateTime)
  /-- A point in time, kept in UTC. -/
  | instant (t : Calendar.DateTime)
  | time (t : Calendar.Time)
  | duration (d : Calendar.Duration)
  | uuid (u : Uuid)
  | json (j : Json)
  /-- The values of an `in` lookup. -/
  | list (items : List Value)
  deriving Repr

namespace Value

instance : Inhabited Value := ⟨.null⟩

def isNull : Value → Bool
  | .null => true
  | _ => false

def isList : Value → Bool
  | .list _ => true
  | _ => false

/-- The zero value of a type, which a partial update leaves out. -/
def isZero : Value → Bool
  | .null => true
  | .bool b => !b
  | .int n => n == 0
  | .float x => x.isZero
  | .string s => s.isEmpty
  | .bytes b => b.isEmpty
  | .list items => items.isEmpty
  | .uuid u => u.isZero
  | .duration d => d.nanos == 0
  | .date _ | .dateTime _ | .instant _ | .time _ | .json _ => false

def bool? : Value → Option Bool
  | .bool b => some b
  | _ => none

def int? : Value → Option Int64
  | .int n => some n
  | _ => none

def string? : Value → Option String
  | .string s => some s
  | _ => none

mutual
/-- Equality of values, with the equality of numbers on floats: it fails on a float that is none. -/
def same : Value → Value → Bool
  | .null, .null => true
  | .bool a, .bool b => a == b
  | .int a, .int b => a == b
  | .float x, .float y => x.same y
  | .string a, .string b => a == b
  | .bytes a, .bytes b => a == b
  | .date a, .date b => a == b
  | .dateTime a, .dateTime b => a == b
  | .instant a, .instant b => a == b
  | .time a, .time b => a == b
  | .duration a, .duration b => a == b
  | .uuid a, .uuid b => a == b
  | .json a, .json b => a.same b
  | .list a, .list b => sameItems a b
  | _, _ => false

def sameItems : List Value → List Value → Bool
  | [], [] => true
  | a :: as, b :: bs => same a b && sameItems as bs
  | _, _ => false
end

end Value

end Orm
