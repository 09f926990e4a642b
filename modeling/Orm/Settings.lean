import Orm.Json.Basic
import Orm.Log
import Orm.Number.Integer
import Orm.Text.Words

/-
Settings: the database to connect to and what is logged.

Settings are layered: a document overrides the defaults, and the environment overrides both.
-/

namespace Orm

structure DatabaseSettings where
  driver : String := "sqlite"
  name : String := "db.sqlite3"
  user : String := ""
  password : String := ""
  host : String := ""
  /-- Zero stands for the driver's own port. -/
  port : Nat := 0
  maxConnections : Nat := 16
  options : List (String × String) := []
  deriving DecidableEq, Repr

structure Settings where
  debug : Bool := true
  logLevel : String := "info"
  logSql : Bool := false
  database : DatabaseSettings := {}
  /-- Settings that have no field of their own. -/
  extra : List (String × Json) := []
  deriving DecidableEq, Repr

namespace Settings

/-! ## The environment -/

/-- The words that switch a flag on, in any case; all others switch it off. -/
def flagOf (s : String) : Bool :=
  ["true", "1", "yes", "on"].contains (Text.lowerAscii s)

/-- A variable's value put in place, if the variable is set. -/
def overridden (lookup : String → Option String) (key : String) (put : String → Settings → Settings)
    (s : Settings) : Settings :=
  match lookup key with
  | some v => put v s
  | none => s

/-- A variable that holds a number; a value that is none is reported and passed over. -/
def overriddenNumber (lookup : String → Option String) (key : String) (range : Number.IntRange)
    (put : Nat → Settings → Settings) (s : Settings) : Settings × Log :=
  match lookup key with
  | none => (s, [])
  | some v =>
    match Number.readInteger range v with
    | .ok n => (put n.toNat s, [])
    | .error fault =>
      (s,
        [{ level := .warn
           target := "djorm_core::settings_loader"
           message := "ignoring " ++ key
           fields := [("value", .text v), ("error", .text fault.message)] }])

def portRange : Number.IntRange := .unsigned 16

def countRange : Number.IntRange := .unsigned 64

/-- The settings under the variables that are set. -/
def underEnvironment (lookup : String → Option String) (s : Settings) : Settings × Log :=
  let put := overridden lookup
  let s := put "DJORM_DEBUG" (fun v s => { s with debug := flagOf v }) s
  let s := put "DJORM_LOG_LEVEL" (fun v s => { s with logLevel := v }) s
  let s := put "DJORM_LOG_SQL" (fun v s => { s with logSql := flagOf v }) s
  let s := put "DJORM_DATABASE_DRIVER" (fun v s => { s with database.driver := v }) s
  let s := put "DJORM_DATABASE_NAME" (fun v s => { s with database.name := v }) s
  let s := put "DJORM_DATABASE_HOST" (fun v s => { s with database.host := v }) s
  let (s, portLog) := overriddenNumber lookup "DJORM_DATABASE_PORT" portRange
    (fun n s => { s with database.port := n }) s
  let s := put "DJORM_DATABASE_USER" (fun v s => { s with database.user := v }) s
  let s := put "DJORM_DATABASE_PASSWORD" (fun v s => { s with database.password := v }) s
  let (s, countLog) := overriddenNumber lookup "DJORM_DATABASE_MAX_CONNECTIONS" countRange
    (fun n s => { s with database.maxConnections := n }) s
  (s, portLog ++ countLog)

end Settings

end Orm
