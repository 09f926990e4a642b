import Orm.Error
import Orm.Json.Reading
import Orm.Json.Writing
import Orm.Settings
import Orm.Toml.Reading

/-
Settings from documents.

A document is merged into the defaults, table by table, and what comes out is read as settings. The
members of a table are read in the order of their names; a list may stand for a table and gives the
fields in the order in which they are declared.
-/

namespace Orm

/-! ## Merging -/

mutual
/-- A document over another: objects are merged, anything else replaces what was there. -/
def Json.merged (base : Json) : (document : Json) → Json
  | .object members =>
    match base with
    | .object old => .object (mergedMembers old members)
    | _ => .object members
  | document => document

def Json.mergedMembers (base : List (String × Json)) :
    (members : List (String × Json)) → List (String × Json)
  | [] => base
  | (name, value) :: rest =>
    let value := match member? name base with
      | some old => Json.merged old value
      | none => value
    Json.mergedMembers (insertMember name value base) rest
end

/-! ## Reading -/

/-- Reading part of a document, or the text of what is wrong with it. -/
abbrev Decoding (α : Type) := Except String α

namespace Decoding

/-- A part of a document as it is called when it is not what was expected. -/
def describe : Json → String
  | .null => "null"
  | .bool b => "boolean `" ++ (if b then "true" else "false") ++ "`"
  | .number (.integer n) => "integer `" ++ toString n ++ "`"
  | .number x => "floating point `" ++ x.text ++ "`"
  | .string s => "string " ++ Text.quoted s
  | .array _ => "sequence"
  | .object _ => "map"

def invalidType (j : Json) (expected : String) : String :=
  "invalid type: " ++ describe j ++ ", expected " ++ expected

def bool : Json → Decoding Bool
  | .bool b => .ok b
  | j => .error (invalidType j "a boolean")

def string : Json → Decoding String
  | .string s => .ok s
  | j => .error (invalidType j "a string")

def natural (type : String) (range : Number.IntRange) : Json → Decoding Nat
  | .number (.integer n) =>
    if range.contains n then .ok n.toNat
    else .error ("invalid value: " ++ describe (.number (.integer n)) ++ ", expected " ++ type)
  | j => .error (invalidType j type)

def map {α : Type} (value : Json → Decoding α) : Json → Decoding (List (String × α))
  | .object members => members.mapM fun (name, j) => do return (name, ← value j)
  | j => .error (invalidType j "a map")

/-- The readers of a table's fields, which only look for what is wrong. -/
abbrev Fields := List (String × (Json → Decoding Unit))

def checkMembers (fields : Fields) : List (String × Json) → Decoding Unit
  | [] => .ok ()
  | (name, j) :: rest => do
    match fields.lookup name with
    | some check => check j
    | none => pure ()
    checkMembers fields rest

/-- The members of a table in either of its forms, each found to be right and none missing. -/
def members (type : String) (fields : Fields) : Json → Decoding (List (String × Json))
  | .object ms => do
    checkMembers fields ms
    match fields.find? fun (name, _) => (Json.member? name ms).isNone with
    | some (name, _) => throw ("missing field `" ++ name ++ "`")
    | none => return ms
  | .array items => do
    let ms := (fields.map (·.1)).zip items
    checkMembers fields ms
    if items.length < fields.length then
      throw ("invalid length " ++ toString items.length ++ ", expected " ++ type ++ " with " ++
        toString fields.length ++ " elements")
    if fields.length < items.length then
      throw ("invalid length " ++ toString items.length ++
        ", expected fewer elements in array")
    return ms
  | j => .error (invalidType j type)

/-- A field that was found to be right. -/
def field {α : Type} (ms : List (String × Json)) (name : String) (read : Json → Decoding α) :
    Decoding α :=
  match Json.member? name ms with
  | some j => read j
  | none => .error ("missing field `" ++ name ++ "`")

def checking {α : Type} (read : Json → Decoding α) (j : Json) : Decoding Unit := do
  let _ ← read j

def port : Json → Decoding Nat := natural "u16" Settings.portRange

def count : Json → Decoding Nat := natural "usize" Settings.countRange

def databaseFields : Fields :=
  [("driver", checking string), ("name", checking string), ("user", checking string),
   ("password", checking string), ("host", checking string), ("port", checking port),
   ("max_connections", checking count), ("options", checking (map string))]

def database (j : Json) : Decoding DatabaseSettings := do
  let ms ← members "struct DatabaseSettings" databaseFields j
  return { driver := ← field ms "driver" string
           name := ← field ms "name" string
           user := ← field ms "user" string
           password := ← field ms "password" string
           host := ← field ms "host" string
           port := ← field ms "port" port
           maxConnections := ← field ms "max_connections" count
           options := ← field ms "options" (map string) }

def settingsFields : Fields :=
  [("debug", checking bool), ("log_level", checking string), ("log_sql", checking bool),
   ("database", checking database), ("extra", checking (map .ok))]

def settings (j : Json) : Decoding Settings := do
  let ms ← members "struct Settings" settingsFields j
  return { debug := ← field ms "debug" bool
           logLevel := ← field ms "log_level" string
           logSql := ← field ms "log_sql" bool
           database := ← field ms "database" database
           extra := ← field ms "extra" (map .ok) }

end Decoding

namespace Settings

/-! ## Documents -/

def databaseJson (d : DatabaseSettings) : Json :=
  .ofObject
    [("driver", .string d.driver), ("name", .string d.name), ("user", .string d.user),
     ("password", .string d.password), ("host", .string d.host),
     ("port", .number (.integer d.port)),
     ("max_connections", .number (.integer d.maxConnections)),
     ("options", .ofObject (d.options.map fun (k, v) => (k, .string v)))]

/-- The settings as a document. -/
def json (s : Settings) : Json :=
  .ofObject
    [("debug", .bool s.debug), ("log_level", .string s.logLevel), ("log_sql", .bool s.logSql),
     ("database", databaseJson s.database), ("extra", .ofObject s.extra)]

/-- The settings of a document over the defaults. -/
def ofDocument (format : String) (document : Json) : Result Settings :=
  match Decoding.settings ((json {}).merged document) with
  | .ok s => .ok s
  | .error what => .error (.configuration
      ("failed to deserialize settings from " ++ format ++ ": " ++ what))

def ofText (format : String) (read? : String → Option Json) (text : String) : Result Settings :=
  match read? text with
  | some document => ofDocument format document
  | none => .error (.configuration ("failed to parse " ++ format ++ ": "))

def ofJson (text : String) : Result Settings := ofText "JSON" Json.ofText? text

def ofToml (text : String) : Result Settings := ofText "TOML" Toml.read? text

/-- The settings of a file, given what came of reading it. -/
def ofFile (path : String) (content : Except String String) (read : String → Result Settings) :
    Result Settings :=
  match content with
  | .ok text => read text
  | .error what => .error (.configuration ("failed to read '" ++ path ++ "': " ++ what))

end Settings

end Orm
