import Orm.Scope

/-
Resolving expressions: every path gets its column, and the joins it needs come into scope. An
expression that is resolved is left as it is.
-/

namespace Orm.Expression

open Resolving (ofResult)

variable {ι : Type}

/-- Whether a comparison holds only for one value that is not NULL. -/
def Leaf.pinned (l : Leaf) : Bool :=
  l.lookup == .exact && match l.values with
    | [v] => !v.isNull
    | _ => false

def Template.resolve (schema : Schema ι) (root : ι) (t : Template) : Resolving Template := do
  if t.columns.isSome then return t
  let columns ← t.fields.mapM fun f => resolvePath schema root f false
  return { t with columns := some columns }

mutual
/-- `top` holds while all groups around an expression are plain conjunctions. -/
def resolveIn (schema : Schema ι) (root : ι) (top : Bool) : Expression ι → Resolving (Expression ι)
  | .leaf l => do
    ofResult (check (.leaf l : Expression ι))
    if l.column.isSome then return .leaf l
    let column ← resolvePath schema root l.path (top && Leaf.pinned l)
    return .leaf { l with column := some column }
  | .raw t => return .raw (← Template.resolve schema root t)
  | .func t => return .func (← Template.resolve schema root t)
  | .group connector negated children => do
    ofResult (checkAll children)
    let top := top && connector == .all && !negated
    return .group connector negated (← resolveAll schema root top children)
  | .subquery use lhs column plan => do
    ofResult plan.check
    match lhs, column with
    | some path, none =>
      return .subquery use lhs (some (← resolvePath schema root path false)) plan
    | _, _ => return .subquery use lhs column plan

def resolveAll (schema : Schema ι) (root : ι) (top : Bool) :
    List (Expression ι) → Resolving (List (Expression ι))
  | [] => return []
  | e :: rest => do
    let e ← resolveIn schema root top e
    return e :: (← resolveAll schema root top rest)
end

/-- An expression with the columns of all its paths. -/
def resolve (schema : Schema ι) (root : ι) (e : Expression ι) : Resolving (Expression ι) :=
  resolveIn schema root true e

end Orm.Expression
