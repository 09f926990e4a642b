import Orm.Verb.Writing

/-
All verbs, those of queries and those of instances, as one type, so that a property of every verb is
one statement.
-/

namespace Orm

variable {ι ρ σ : Type} {schema : Schema ι}

/-! ## Verbs -/

/-- A verb with what it is called with. -/
inductive Verb (ι : Type) where
  | all (p : Plan ι)
  | first (p : Plan ι)
  | get (p : Plan ι)
  | count (p : Plan ι)
  | exists (p : Plan ι)
  | valuesList (p : Plan ι) (paths : List String)
  | valuesFlat (p : Plan ι) (path : String) (read : Value → Result Value)
  | update (p : Plan ι) (x : Instance ι)
  | delete (p : Plan ι)
  | create (p : Plan ι) (x : Instance ι)
  | bulkCreate (p : Plan ι) (xs : List (Instance ι))
  | createInstance (x : Instance ι)
  | updateInstance (x : Instance ι)
  | deleteInstance (x : Instance ι)
  | saveObject (x : Instance ι)
  | refreshObject (x : Instance ι)
  | getObject (model : ι) (id : Value)
  | listObjects (model : ι) (offset limit : Nat) (ordering : List String)
  | listByIds (model : ι) (offset limit : Nat) (ids : List Value)

namespace Verb

def Reply : Verb ι → Type
  | all _ | listObjects _ _ _ _ | listByIds _ _ _ _ => List (Instance ι)
  | first _ => Option (Instance ι)
  | get _ | getObject _ _ => Instance ι
  | count _ | update _ _ | delete _ | bulkCreate _ _ | updateInstance _ | deleteInstance _ => Nat
  | .exists _ | saveObject _ => Bool
  | valuesList _ _ => List (List Value)
  | valuesFlat _ _ _ => List Value
  | create _ _ | createInstance _ | refreshObject _ => Unit

/-- The query whose verb it is. -/
def plan? : Verb ι → Option (Plan ι)
  | all p | first p | get p | count p | .exists p | valuesList p _ | valuesFlat p _ _ | update p _
  | delete p | create p _ | bulkCreate p _ => some p
  | _ => none

/-- The instances that the verb may write to. -/
def instances : Verb ι → List (Instance ι)
  | create _ x | createInstance x | saveObject x | refreshObject x => [x]
  | bulkCreate _ xs => xs
  | _ => []

end Verb

/-- What a verb gives and the instances it was given, as it leaves them. -/
abbrev Performed (ι α : Type) := Result α × List (Instance ι)

/-- A verb that writes to no instance. -/
def Effect.alone {α : Type} (e : Effect ρ σ α) : StateM (World ρ σ) (Performed ι α) :=
  return (← e.run, [])

/-- A verb that writes to one instance. -/
def Environment.Filling.on {α : Type} (f : Filling ι ρ σ α) (x : Instance ι) :
    StateM (World ρ σ) (Performed ι α) := do
  let (r, x) ← f.run.run x
  return (r, [x])

def Verb.perform [DecidableEq ι] (env : Environment ι ρ σ) (db : Executor) :
    (v : Verb ι) → StateM (World ρ σ) (Performed ι v.Reply)
  | all p => (env.all db p).alone
  | first p => (env.first db p).alone
  | get p => (env.get db p).alone
  | count p => (env.count db p).alone
  | .exists p => (env.exists_ db p).alone
  | valuesList p paths => (env.valuesList db p paths).alone
  | valuesFlat p path read => (env.valuesFlat db p path read).alone
  | update p x => (env.update db p x).alone
  | delete p => (env.delete db p).alone
  | create p x => (env.create db p).on x
  | bulkCreate p xs => env.bulkCreate db p xs
  | createInstance x => (env.createInstance db).on x
  | updateInstance x => (env.updateInstance db x).alone
  | deleteInstance x => (env.deleteInstance db x).alone
  | saveObject x => (env.saveObject db).on x
  | refreshObject x => (env.refreshObject db).on x
  | getObject model id => (env.getObject db model id).alone
  | listObjects model offset limit ordering => (env.listObjects db model offset limit ordering).alone
  | listByIds model offset limit ids => (env.listByIds db model offset limit ids).alone

end Orm
