import Orm.Lookup

/-
Predicates, computed values and the queries they are part of.

An `Expression` is a tree of comparisons, templates, groups and nested queries; a `Plan` is the state
of a query before it is compiled. Both name fields by paths; once an expression is resolved, its
nodes carry the columns of their paths as well.
-/

namespace Orm

inductive Connector where
  | all
  | any
  deriving DecidableEq, Repr

/-- How a nested query is used. -/
inductive SubqueryUse where
  | inList
  | exists
  | count
  | scalar
  deriving DecidableEq, Repr

def SubqueryUse.name : SubqueryUse → String
  | .inList => "in"
  | .exists => "exists"
  | .count => "count"
  | .scalar => "scalar"

/-- A comparison of one field. -/
structure Leaf where
  path : String
  lookup : Lookup
  values : List Value
  /-- Why the key could not be read. -/
  unsupported : Option String := none
  column : Option Column := none
  deriving Repr

/-- SQL with `%s` slots for columns and `?` slots for parameters; `%%` is a per cent sign. -/
structure Template where
  text : String
  fields : List String
  params : List Value
  columns : Option (List Column) := none
  deriving Repr

inductive JoinKind where
  | inner
  | left
  | right
  | cross
  deriving DecidableEq, Repr

def JoinKind.sql : JoinKind → String
  | .inner => "INNER JOIN"
  | .left => "LEFT JOIN"
  | .right => "RIGHT JOIN"
  | .cross => "CROSS JOIN"

/-- A comparison of two columns in the condition of a join. -/
structure JoinCondition where
  left : String
  operator : String
  right : String
  deriving DecidableEq, Repr

/-- A join that the query names: the target is a relation path of the root, or a table. -/
structure ExplicitJoin where
  kind : JoinKind
  target : String
  condition : Option JoinCondition
  deriving DecidableEq, Repr

mutual
inductive Expression (ι : Type) where
  | leaf (leaf : Leaf)
  | raw (template : Template)
  | func (template : Template)
  | group (connector : Connector) (negated : Bool) (children : List (Expression ι))
  | subquery (use : SubqueryUse) (lhs : Option String) (column : Option Column) (plan : Plan ι)

/-- The state of a query. -/
structure Plan (ι : Type) where
  /-- The root model. -/
  model : ι
  /-- The projected paths; none stand for all columns of the root. -/
  select : List String := []
  /-- The computed columns, in the order in which they were added. -/
  annotations : List (String × Expression ι) := []
  /-- The predicates, all of which have to hold. -/
  filters : List (Expression ι) := []
  /-- The ordering; none stands for that of the model. -/
  orderBy : Option (List String) := none
  limit : Option Nat := none
  offset : Option Nat := none
  distinct : Bool := false
  joins : List ExplicitJoin := []
  /-- Whether updates write every column, or exactly the selected ones, zero or not. -/
  explicitSave : Bool := false
  /-- The first mistake made in building the query. -/
  error : Option Error := none
end

namespace Plan

variable {ι : Type}

/-- The mistake, if one was made. -/
def check (p : Plan ι) : Result Unit :=
  match p.error with
  | some e => .error e
  | none => .ok ()

def paged (p : Plan ι) : Bool := p.limit.isSome || p.offset.isSome

end Plan

namespace Expression

variable {ι : Type}

/-! ## Building -/

/-- A comparison from a key `path__lookup`. A key that cannot be read is reported by `check`. -/
def ofKey (key : String) (values : List Value) : Expression ι :=
  match parseKey key with
  | .ok (path, lookup) => .leaf { path, lookup, values }
  | .error e => .leaf { path := key, lookup := .exact, values, unsupported := some e.message }

def compare (path : String) (lookup : Lookup) (values : List Value) : Expression ι :=
  .leaf { path, lookup, values }

/-- All of them; the empty conjunction holds. -/
def all (children : List (Expression ι)) : Expression ι :=
  .group .all false children

/-- At least one of them; the empty disjunction does not hold. -/
def any (children : List (Expression ι)) : Expression ι :=
  .group .any false children

/-- A group is negated in place, anything else in a group of its own. -/
def negate : Expression ι → Expression ι
  | .group connector negated children => .group connector (!negated) children
  | e => .group .all true [e]

/-- The operands of a connector; a plain group of the same connector gives its own. -/
def operands (connector : Connector) : Expression ι → List (Expression ι)
  | .group c false children =>
    if c = connector then children else [.group c false children]
  | e => [e]

def combine (connector : Connector) (a b : Expression ι) : Expression ι :=
  .group connector false (operands connector a ++ operands connector b)

def both (a b : Expression ι) : Expression ι := combine .all a b

def either (a b : Expression ι) : Expression ι := combine .any a b

/-- A nested query as a value, a condition or a number of rows. -/
def nested (use : SubqueryUse) (plan : Plan ι) : Expression ι :=
  .subquery use none none plan

/-- Membership of a field in the result of a nested query. -/
def memberOf (path : String) (plan : Plan ι) : Expression ι :=
  .subquery .inList (some path) none plan

/-! ## Inspection -/

mutual
/-- The paths of the outer query that an expression names. -/
def paths : Expression ι → List String
  | .leaf l => [l.path]
  | .raw t | .func t => t.fields
  | .group _ _ children => pathsAll children
  | .subquery _ lhs _ _ => lhs.toList

def pathsAll : List (Expression ι) → List String
  | [] => []
  | e :: rest => paths e ++ pathsAll rest
end

mutual
/-- The first mistake made in building an expression. -/
def check : Expression ι → Result Unit
  | .leaf l =>
    match l.unsupported with
    | some why => .error (.unsupportedLookup why)
    | none => .ok ()
  | .raw _ | .func _ => .ok ()
  | .group _ _ children => checkAll children
  | .subquery _ _ _ plan => plan.check

def checkAll : List (Expression ι) → Result Unit
  | [] => .ok ()
  | e :: rest => do check e; checkAll rest
end

mutual
/-- Whether every path has its column. -/
def isResolved : Expression ι → Bool
  | .leaf l => l.column.isSome
  | .raw t | .func t => t.columns.isSome
  | .group _ _ children => allResolved children
  | .subquery _ lhs column _ => lhs.isNone || column.isSome

def allResolved : List (Expression ι) → Bool
  | [] => true
  | e :: rest => isResolved e && allResolved rest
end

mutual
/-- How deeply queries are nested. -/
def depth : Expression ι → Nat
  | .leaf _ | .raw _ | .func _ => 0
  | .group _ _ children => depthAll children
  | .subquery _ _ _ plan => planDepth plan + 1

def depthAll : List (Expression ι) → Nat
  | [] => 0
  | e :: rest => max (depth e) (depthAll rest)

def depthNamed : List (String × Expression ι) → Nat
  | [] => 0
  | (_, e) :: rest => max (depth e) (depthNamed rest)

def planDepth : Plan ι → Nat
  | { annotations, filters, .. } => max (depthNamed annotations) (depthAll filters)
end

/-! ## Equality -/

def sameValues : List Value → List Value → Bool := Value.sameItems

def Leaf.same (a b : Leaf) : Bool :=
  a.path == b.path && a.lookup == b.lookup && sameValues a.values b.values &&
    a.unsupported == b.unsupported && a.column == b.column

def Template.same (a b : Template) : Bool :=
  a.text == b.text && a.fields == b.fields && sameValues a.params b.params &&
    a.columns == b.columns

variable [DecidableEq ι]

mutual
/-- Equality of expressions, with the equality of numbers on floats. -/
def same : Expression ι → Expression ι → Bool
  | .leaf a, .leaf b => Leaf.same a b
  | .raw a, .raw b => Template.same a b
  | .func a, .func b => Template.same a b
  | .group c n xs, .group d m ys => c == d && n == m && sameAll xs ys
  | .subquery u l c p, .subquery v m d q => u == v && l == m && c == d && samePlan p q
  | _, _ => false

def sameAll : List (Expression ι) → List (Expression ι) → Bool
  | [], [] => true
  | a :: as, b :: bs => same a b && sameAll as bs
  | _, _ => false

def sameNamed : List (String × Expression ι) → List (String × Expression ι) → Bool
  | [], [] => true
  | (j, a) :: as, (k, b) :: bs => j == k && same a b && sameNamed as bs
  | _, _ => false

/-- Equality of plans, of whose mistakes only the presence counts. -/
def samePlan : Plan ι → Plan ι → Bool
  | ⟨m, s, a, f, o, l, k, d, j, x, e⟩, ⟨m', s', a', f', o', l', k', d', j', x', e'⟩ =>
    m = m' && s == s' && sameNamed a a' && sameAll f f' && o == o' && l == l' && k == k' &&
      d == d' && j == j' && x == x' && e.isSome == e'.isSome
end

end Expression

end Orm
