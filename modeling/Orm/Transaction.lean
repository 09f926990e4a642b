import Orm.Executor

/-
Transactions.

A transaction is active from its BEGIN until a COMMIT or a ROLLBACK succeeds. One that fails leaves it
active; a transaction that has ended accepts nothing more.
-/

namespace Orm.Transaction

variable {ι ρ σ : Type}

def event (level : Level) (message : String) (fields : List (String × LogField)) : Log :=
  [{ level, target := "djorm_db::transactions", message, fields }]

def start (env : Environment ι ρ σ) (db : Executor) : Effect ρ σ Executor := do
  let _ ← db.call env .execute "BEGIN" []
  Effect.report (event .info "transaction started" [("driver", .text env.driver)])
  let id := (← get).transactions.length
  modify fun w => { w with transactions := w.transactions ++ [.active] }
  return .transaction id db

/-- Ends a transaction by a statement to the executor that it runs on. -/
def finish (env : Environment ι ρ σ) (id : Nat) (inner : Executor) (sql : String)
    (next : TransactionState) : Effect ρ σ Unit := do
  match (← get).transactions[id]? with
  | some .active =>
    let _ ← inner.call env .execute sql []
    modify fun w => { w with transactions := w.transactions.set id next }
    Effect.report (event .info "transaction finished"
      [("driver", .text env.driver), ("state", .text next.label)])
  | some state =>
    throw (.noTransaction ("cannot " ++ Text.lowerAscii sql ++ " a transaction that is already " ++
      state.label))
  | none => throw (.noTransaction "transaction has not begun")

def commit (env : Environment ι ρ σ) (id : Nat) (inner : Executor) : Effect ρ σ Unit :=
  finish env id inner "COMMIT" .committed

def rollback (env : Environment ι ρ σ) (id : Nat) (inner : Executor) : Effect ρ σ Unit :=
  finish env id inner "ROLLBACK" .rolledBack

/-- What is reported when nobody holds the transaction any longer. -/
def dropped (env : Environment ι ρ σ) (state : TransactionState) : Log :=
  if state = .active then
    event .warn "transaction dropped while active; the connection will roll it back"
      [("driver", .text env.driver)]
  else []

end Orm.Transaction
