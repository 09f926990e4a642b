import Orm.Schema.Alias

/-
How the columns of a result belong to instances.

A `ScanPlan` is a tree of nodes, one for each place at which an instance stands, and one entry for
each column of the result: a field of the instance at a node, or a computed value of the root.
-/

namespace Orm

structure ScanNode (ι : Type) where
  /-- The node above, none for the root. -/
  parent : Option Nat
  /-- The relation field on the model above that leads here. -/
  relation : Option (FieldDef ι)
  model : ι
  tableAlias : String
  /-- The entry that holds the primary key of this node. -/
  pkEntry : Option Nat := none
  deriving Repr

/-- Whether several instances are collected at the node for one above. -/
def ScanNode.toMany {ι : Type} (n : ScanNode ι) : Bool :=
  n.relation.any fun f => f.relation.any (·.toMany)

inductive ScanTarget (ι : Type) where
  | field (node : Nat) (field : FieldDef ι)
  | computed (name : String)
  deriving Repr

structure ScanEntry (ι : Type) where
  columnAlias : String
  target : ScanTarget ι
  deriving Repr

structure ScanPlan (ι : Type) where
  nodes : List (ScanNode ι) := []
  entries : List (ScanEntry ι) := []
  /-- Whether rows with the same root key are one instance. -/
  groupRows : Bool := false
  deriving Repr

namespace ScanPlan

variable {ι : Type}

def withRoot (model : ι) (tableAlias : String) : ScanPlan ι :=
  { nodes := [{ parent := none, relation := none, model, tableAlias }] }

def toMany (s : ScanPlan ι) : Bool := s.nodes.any (·.toMany)

/-- The nodes below a node, in the order in which they were found. -/
def children (s : ScanPlan ι) (node : Nat) : List Nat :=
  (List.range s.nodes.length).filter fun i => (s.nodes[i]?.bind (·.parent)) == some node

/-- The node of a table alias, added if there is none. -/
def ensureNode (s : ScanPlan ι) (parent : Nat) (field : FieldDef ι) (model : ι)
    (tableAlias : String) : ScanPlan ι × Nat :=
  match s.nodes.findIdx? (·.tableAlias == tableAlias) with
  | some i => (s, i)
  | none =>
    ({ s with nodes := s.nodes ++ [{ parent := some parent, relation := some field, model, tableAlias }] },
      s.nodes.length)

def setPkEntry (nodes : List (ScanNode ι)) (node entry : Nat) : List (ScanNode ι) :=
  nodes.modify node fun n => { n with pkEntry := some entry }

/-- The projection of a field at a node; with `dedupe` a column is projected once. -/
def project (s : ScanPlan ι) (node : Nat) (field : FieldDef ι) (dedupe : Bool) : ScanPlan ι :=
  match s.nodes[node]? with
  | none => s
  | some n =>
    let columnAlias := Aliases.columnAlias n.tableAlias field.column
    if dedupe && s.entries.any (·.columnAlias == columnAlias) then s
    else
      { s with
        nodes := if field.primaryKey then setPkEntry s.nodes node s.entries.length else s.nodes
        entries := s.entries ++ [⟨columnAlias, .field node field⟩] }

def projectAll (s : ScanPlan ι) (node : Nat) (fields : List (FieldDef ι)) (dedupe : Bool) :
    ScanPlan ι :=
  fields.foldl (fun s f => s.project node f dedupe) s

/-- The entry of the root's key. -/
def rootKey (s : ScanPlan ι) : Option Nat :=
  (s.nodes.head?).bind (·.pkEntry)

def columnAliases (s : ScanPlan ι) : List String := s.entries.map (·.columnAlias)

end ScanPlan

end Orm
