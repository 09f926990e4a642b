import Orm.Instance
import Orm.Row
import Orm.Scan

/-
Instances from the rows of a result.

A row gives a tree of instances along the scan plan; a related instance whose columns are all NULL is
left out. Where rows are grouped, the trees of one root key are merged: a single relation keeps its
first instance, a collection takes one instance for each key.
-/

namespace Orm

/-- An instance and those below it, before they are attached. -/
inductive Tree (ι : Type) where
  | node (index : Nat) (key : Option String) (instance_ : Instance ι) (children : List (Tree ι))

namespace Tree

variable {ι : Type}

def index : Tree ι → Nat
  | node i .. => i

def key : Tree ι → Option String
  | node _ k .. => k

def addChild (child : Tree ι) : Tree ι → Tree ι
  | node i k x children => node i k x (child :: children)

/-- Whether two trees below one instance stand for the same instance. -/
def matching (scan : ScanPlan ι) (a b : Tree ι) : Bool :=
  a.index == b.index &&
    (!(scan.nodes[b.index]?.any (·.toMany)) || (a.key.isSome && a.key == b.key))

/-- The first tree that matches replaced, or the new one at the end. -/
def mergeInto (scan : ScanPlan ι) (child : Tree ι) (merge : Tree ι → Tree ι) :
    List (Tree ι) → List (Tree ι)
  | [] => [child]
  | t :: rest =>
    if matching scan t child then merge t :: rest else t :: mergeInto scan child merge rest

mutual
/-- The tree with the instances that another tree has below its root. -/
def merge (scan : ScanPlan ι) : (other : Tree ι) → Tree ι → Tree ι
  | node _ _ _ more, node i k x children => node i k x (mergeAll scan more children)

def mergeAll (scan : ScanPlan ι) : List (Tree ι) → List (Tree ι) → List (Tree ι)
  | [], children => children
  | t :: rest, children => mergeAll scan rest (mergeInto scan t (merge scan t) children)
end

variable [DecidableEq ι]

mutual
/-- The instance of a tree with those below it attached. -/
def attach (schema : Schema ι) (scan : ScanPlan ι) : Tree ι → Result (Instance ι)
  | node _ _ x children => attachAll schema scan x children

def attachAll (schema : Schema ι) (scan : ScanPlan ι) (x : Instance ι) :
    List (Tree ι) → Result (Instance ι)
  | [] => .ok x
  | node i k y below :: rest =>
    match scan.nodes[i]? with
    | none => .error (.nilPointer "scan plan has no root node")
    | some n =>
      match n.relation with
      | none => .error (.nilPointer ("scan node '" ++ n.tableAlias ++ "' has no relation"))
      | some f => do
        let related ← attach schema scan (node i k y below)
        let (x, result) :=
          if n.toMany then x.pushRelated schema f.name related
          else x.setRelated schema f.name (some related)
        result
        attachAll schema scan x rest
end

end Tree

/-! ## One row -/

/-- What a row has brought to a node so far. -/
structure NodeValues (ι : Type) where
  instance_ : Option (Instance ι) := none
  hasEntries : Bool := false
  hasValues : Bool := false
  key : Option String := none

/-- What a row has brought so far: to each node, and the computed values. -/
structure RowValues (ι : Type) where
  nodes : List (NodeValues ι)
  annotations : List (String × Value) := []

variable {ι : Type}

/-- A value brought to a node. Below the root, NULL brings nothing. -/
def NodeValues.take (schema : Schema ι) (model : ι) (isRoot isKey : Bool) (field : FieldDef ι)
    (n : NodeValues ι) (v : Value) : Result (NodeValues ι) := do
  let v ← field.type.normalize v
  let key := if isKey && !v.isNull then some v.groupKey else n.key
  let n := { n with hasEntries := true, key }
  if v.isNull && !isRoot then return n
  let (x, result) := (n.instance_.getD (.new schema model)).setValue schema field.name v
  result
  return { n with hasValues := n.hasValues || !v.isNull, instance_ := some x }

def RowValues.take (schema : Schema ι) (scan : ScanPlan ι) (i : Nat) (r : RowValues ι)
    (entry : ScanEntry ι) (v : Value) : Result (RowValues ι) :=
  match entry.target with
  | .computed name => .ok { r with annotations := r.annotations ++ [(name, v)] }
  | .field node field =>
    match scan.nodes[node]?, r.nodes[node]? with
    | some n, some values => do
      let values ← values.take schema n.model (node == 0) (n.pkEntry == some i) field v
      return { r with nodes := r.nodes.set node values }
    | _, _ => .error (.nilPointer "scan plan has no root node")

def RowValues.takeAll (schema : Schema ι) (scan : ScanPlan ι) :
    Nat → RowValues ι → List (ScanEntry ι × Value) → Result (RowValues ι)
  | _, r, [] => .ok r
  | i, r, (entry, v) :: rest => do
    let r ← r.take schema scan i entry v
    takeAll schema scan (i + 1) r rest

/-- The nodes of a plan but the root, the last one first. -/
def nodesUpward (scan : ScanPlan ι) : List Nat :=
  ((List.range scan.nodes.length).drop 1).reverse

/--
Whether each node has an instance in the row: the root always, a node with columns if one of them has
a value, a node without columns if a node below it has an instance.
-/
def presence (scan : ScanPlan ι) (nodes : List (NodeValues ι)) : List Bool :=
  let start := (List.replicate nodes.length false).set 0 true
  (nodesUpward scan).foldl
    (fun present i =>
      let here := match nodes[i]? with
        | some n => if n.hasEntries then n.hasValues else (scan.children i).any fun c => present[c]? == some true
        | none => false
      present.set i here)
    start

/-- The tree of each node that is present, with nothing below it yet. -/
def seeds (schema : Schema ι) (scan : ScanPlan ι) (nodes : List (NodeValues ι))
    (present : List Bool) : List (Option (Tree ι)) :=
  (List.range scan.nodes.length).map fun i =>
    match scan.nodes[i]?, nodes[i]?, present[i]? with
    | some n, some v, some true =>
      some (.node i v.key (v.instance_.getD (.new schema n.model)) [])
    | _, _, _ => none

/-- Moves the tree of a node below its parent's. -/
def hang (scan : ScanPlan ι) (trees : List (Option (Tree ι))) (i : Nat) : List (Option (Tree ι)) :=
  match trees[i]? with
  | some (some child) =>
    let trees := trees.set i none
    match (scan.nodes[i]?).bind (·.parent) with
    | some p => trees.modify p (·.map (Tree.addChild child))
    | none => trees
  | _ => trees

def annotateAll (schema : Schema ι) (x : Instance ι) :
    List (String × Value) → Result (Instance ι)
  | [] => .ok x
  | (name, v) :: rest => do
    let (x, result) := x.annotate schema name v
    result
    annotateAll schema x rest

/-- The tree of instances of one row. -/
def rowTree (schema : Schema ι) (scan : ScanPlan ι) (values : List Value) : Result (Tree ι) := do
  if values.length != scan.entries.length then
    throw (.typeMismatch ("row has " ++ toString values.length ++ " columns, projection has " ++
      toString scan.entries.length))
  let r ← RowValues.takeAll schema scan 0 { nodes := scan.nodes.map fun _ => {} }
    (scan.entries.zip values)
  let trees := seeds schema scan r.nodes (presence scan r.nodes)
  match (nodesUpward scan).foldl (hang scan) trees with
  | some (.node i k x children) :: _ => do
    let x ← annotateAll schema x r.annotations
    return .node i k x children
  | _ => throw (.nilPointer "scan plan has no root node")

/-! ## All rows -/

/-- Whether the work is called off before the next row. -/
abbrev CalledOff := Nat → Bool

/-- A tree merged with the one of its root key, or put at the end. -/
def addTree (scan : ScanPlan ι) (t : Tree ι) : List (Tree ι) → List (Tree ι)
  | [] => [t]
  | u :: rest =>
    if u.key == t.key then Tree.merge scan t u :: rest else u :: addTree scan t rest

def placeTree (scan : ScanPlan ι) (trees : List (Tree ι)) (t : Tree ι) : List (Tree ι) :=
  if scan.groupRows && t.key.isSome then addTree scan t trees else trees ++ [t]

/-- The trees of the rows from the `i`-th on, after those built so far. -/
def rowTrees (schema : Schema ι) (scan : ScanPlan ι) (calledOff : CalledOff) :
    Nat → List (Tree ι) → List (List Value) → Result (List (Tree ι))
  | _, trees, [] => .ok trees
  | i, trees, row :: rest => do
    if calledOff i then throw .cancelled
    let t ← rowTree schema scan row
    rowTrees schema scan calledOff (i + 1) (placeTree scan trees t) rest

/-- The instances of the rows of a result. -/
def materialize [DecidableEq ι] (schema : Schema ι) (scan : ScanPlan ι) (rows : List (List Value))
    (calledOff : CalledOff) : Result (List (Instance ι)) := do
  let trees ← rowTrees schema scan calledOff 0 [] rows
  trees.mapM (Tree.attach schema scan)

def entryValue (entry : ScanEntry ι) (v : Value) : Result Value :=
  match entry.target with
  | .field _ field => field.type.normalize v
  | .computed _ => .ok v

/-- The rows as tuples of the values that their columns' fields have. -/
def valueRows (scan : ScanPlan ι) (calledOff : CalledOff) :
    Nat → List (List Value) → Result (List (List Value))
  | _, [] => .ok []
  | i, row :: rest => do
    if calledOff i then throw .cancelled
    let values ← (scan.entries.zip row).mapM fun (entry, v) => entryValue entry v
    return values :: (← valueRows scan calledOff (i + 1) rest)

end Orm
