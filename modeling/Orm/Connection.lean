import Orm.Settings
import Orm.Sqlite

/-
Connecting: what has to be known of a database to connect to it, and which driver does it.
-/

namespace Orm

/-- Where a database is; what is left out is the driver's own default. -/
structure DatabaseConfig where
  driver : String
  /-- The name of the database or the path of its file. -/
  name : String
  host : Option String := none
  port : Option Nat := none
  user : Option String := none
  password : Option String := none
  maxConnections : Nat := 1
  options : List (String × String) := []
  deriving DecidableEq, Repr

namespace DatabaseConfig

def sqliteFile (path : String) : DatabaseConfig :=
  { driver := "sqlite", name := path }

/-- The name that stands for a database that is not kept. -/
def memory : String := ":memory:"

def sqliteMemory : DatabaseConfig :=
  sqliteFile memory

def network (driver name host : String) (port : Nat) (user password : String) : DatabaseConfig :=
  { driver, name, host, port, user, password, maxConnections := 16 }

def given (s : String) : Option String :=
  if s.isEmpty then none else some s

/-- Empty texts and port zero leave it to the driver; there is at least one connection. -/
def ofSettings (s : DatabaseSettings) : DatabaseConfig :=
  { driver := s.driver
    name := s.name
    host := given s.host
    port := if s.port = 0 then none else some s.port
    user := given s.user
    password := given s.password
    maxConnections := max s.maxConnections 1
    options := s.options }

/-- The configuration as a document. -/
def json (c : DatabaseConfig) : Json :=
  let text (s : Option String) : Json := (s.map Json.string).getD .null
  .ofObject
    [("driver", .string c.driver), ("name", .string c.name), ("host", text c.host),
     ("port", (c.port.map fun n => Json.number (.integer n)).getD .null), ("user", text c.user),
     ("password", text c.password), ("max_connections", .number (.integer c.maxConnections)),
     ("options", .ofObject (c.options.map fun (k, v) => (k, .string v)))]

end DatabaseConfig

/--
Connects and gives the driver of the connection; only the SQLite driver is at hand. `outcome` is what
the file system says to opening the database's file.
-/
def connect (outcome : Except String Unit) (c : DatabaseConfig) : Result String × Log :=
  let log : Log :=
    [{ level := .info
       target := "djorm_db_backends::base"
       message := "connecting"
       fields := [("driver", .text c.driver), ("name", .text c.name)] }]
  if c.driver = "sqlite" then
    let (r, opened) := Sqlite.openPath c.name outcome
    (r.map fun _ => c.driver, log ++ opened)
  else
    (.error (.configuration ("no backend compiled in for driver '" ++ c.driver ++ "'")), log)

end Orm
