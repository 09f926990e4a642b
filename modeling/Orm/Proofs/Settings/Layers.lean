import Orm.Proofs.Settings.Reading

/-
Settings are layered: what is in effect is the value of the environment, else the one that the document
writes, else the default (`InEffect`). The document may write the fields of the database as members of an
object or as a list, in which no field has a name.
-/

namespace Orm.Settings

open Decoding (Inverts Reads whole table)

variable {α : Type} {read : Json → Decoding α} {written : α → Json}

/-- A value that the environment gives, or which the document writes, or which is the default. -/
def InEffect (written : α → Json) (environment : Option α) (document : Option Json)
    (default value : α) : Prop :=
  match environment, document with
  | some x, _ => value = x
  | none, some part => part = written value
  | none, none => value = default

theorem InEffect.overlay {document : Option Json} {default value : α}
    (h : InEffect written none document default value) (environment : Option α) :
    InEffect written environment document default (environment.getD value) := by
  cases environment with
  | none => exact h
  | some x => rfl

/-! ## The document over the defaults -/

/-- A field of an object over the defaults. -/
theorem field?_merged_object {defaults members : List (String × Json)} {d : Json} (place : Nat)
    {name : String} (hmembers : Json.Ascending members) (hname : Json.member? name defaults = some d) :
    ((Json.object defaults).merged (.object members)).field? place name =
      some (((Json.member? name members).map d.merged).getD d) := by
  rw [Json.merged_object, Json.field?, Json.member?_mergedMembers hmembers, hname]
  cases Json.member? name members <;> rfl

/-- The part of a table over a default that it replaces, if it has the field. -/
theorem field?_merged {defaults : List (String × Json)} {j part d : Json} {place : Nat} {name : String}
    (hj : j.Ordered) (h : ((Json.object defaults).merged j).field? place name = some part)
    (hname : Json.member? name defaults = some d) (hover : ∀ j : Json, j.Ordered → d.merged j = j) :
    part = (j.field? place name).getD d := by
  cases hj with
  | @object members ascending parts =>
    rw [field?_merged_object place ascending hname] at h
    rw [← Option.some.inj h, Json.field?]
    cases hv : Json.member? name members with
    | none => rfl
    | some v => exact hover v (parts _ (Json.mem_of_member? hv))
  | @array items _ =>
    have h : items[place]? = some part := h
    rw [Json.field?, h, Option.getD_some]
  | _ => cases h

/-- A field that was read from a table over the defaults. -/
theorem inEffect_of_reads {defaults : List (String × Json)} {table : Option Json} {place : Nat}
    {name : String} {default value : α} (htable : ∀ j ∈ table, j.Ordered)
    (h : Reads ((Json.object defaults).merged (table.getD (.object []))) place name read value)
    (hread : Inverts read written) (hover : ∀ j : Json, j.Ordered → (written default).merged j = j)
    (hname : Json.member? name defaults = some (written default) := by decide +kernel)
    (hdefault : read (written default) = .ok default := by rfl) :
    InEffect written none (table.bind (Json.field? place name)) default value := by
  obtain ⟨part, hpart, hvalue⟩ := h
  have hordered : (table.getD (.object [])).Ordered := by
    cases table with
    | none => exact .object .nil fun m hm => absurd hm List.not_mem_nil
    | some j => exact htable j rfl
  have hfield : (table.getD (.object [])).field? place name = table.bind (Json.field? place name) := by
    cases table <;> rfl
  have heq := field?_merged hordered hpart hname hover
  rw [hfield] at heq
  cases hfound : table.bind (Json.field? place name) with
  | none =>
    rw [hfound, Option.getD_none] at heq
    rw [heq, hdefault] at hvalue
    exact (Except.ok.inj hvalue).symm
  | some j =>
    rw [hfound, Option.getD_some] at heq
    rw [heq] at hvalue
    exact hread hvalue

/-- A table over the defaults is read from what the document has for it, be it nothing. -/
theorem table_merged {defaults members : List (String × Json)} {d : List (String × Json)} {part : Json}
    {place : Nat} {name : String} (hmembers : Json.Ascending members)
    (h : ((Json.object defaults).merged (.object members)).field? place name = some part)
    (hname : Json.member? name defaults = some (.object d)) :
    part = (Json.object d).merged ((Json.member? name members).getD (.object [])) := by
  rw [field?_merged_object place hmembers hname] at h
  rw [← Option.some.inj h]
  cases Json.member? name members <;> rfl

/-! ## The environment over the document -/

/-- The number of a variable, if its text is one. -/
def numberOf? (range : Number.IntRange) (text : String) : Option Nat :=
  (Number.integer? range text).map Int.toNat

variable {lookup : String → Option String} {key : String}

/-- A text in its field: the one of the variable, else the one that is there. -/
theorem overridden_eq (put : String → Settings → Settings) (get : Settings → String)
    (h : ∀ s, put (get s) s = s) (s : Settings) :
    overridden lookup key put s = put ((lookup key).getD (get s)) s := by
  unfold overridden
  cases lookup key with
  | none => exact (h s).symm
  | some v => rfl

theorem overriddenFlag_eq (put : Bool → Settings → Settings) (get : Settings → Bool)
    (h : ∀ s, put (get s) s = s) (s : Settings) :
    overridden lookup key (fun v => put (flagOf v)) s =
      put (((lookup key).map flagOf).getD (get s)) s := by
  unfold overridden
  cases lookup key with
  | none => exact (h s).symm
  | some v => rfl

theorem overriddenNumber_eq (put : Nat → Settings → Settings) (get : Settings → Nat)
    (range : Number.IntRange) (h : ∀ s, put (get s) s = s) (s : Settings) :
    (overriddenNumber lookup key range put s).1 =
      put (((lookup key).bind (numberOf? range)).getD (get s)) s := by
  unfold overriddenNumber
  cases lookup key with
  | none => exact (h s).symm
  | some v =>
    dsimp only [Option.bind_some, numberOf?, Number.integer?]
    cases Number.readInteger range v with
    | error fault => exact (h s).symm
    | ok n => rfl

/-- The settings under the environment, field by field. -/
theorem underEnvironment_eq (lookup : String → Option String) (s : Settings) :
    (underEnvironment lookup s).1 =
      { debug := ((lookup "DJORM_DEBUG").map flagOf).getD s.debug
        logLevel := (lookup "DJORM_LOG_LEVEL").getD s.logLevel
        logSql := ((lookup "DJORM_LOG_SQL").map flagOf).getD s.logSql
        database :=
          { driver := (lookup "DJORM_DATABASE_DRIVER").getD s.database.driver
            name := (lookup "DJORM_DATABASE_NAME").getD s.database.name
            user := (lookup "DJORM_DATABASE_USER").getD s.database.user
            password := (lookup "DJORM_DATABASE_PASSWORD").getD s.database.password
            host := (lookup "DJORM_DATABASE_HOST").getD s.database.host
            port := ((lookup "DJORM_DATABASE_PORT").bind (numberOf? portRange)).getD s.database.port
            maxConnections := ((lookup "DJORM_DATABASE_MAX_CONNECTIONS").bind
              (numberOf? countRange)).getD s.database.maxConnections
            options := s.database.options }
        extra := s.extra } := by
  unfold underEnvironment
  simp only [overriddenFlag_eq (fun b s => { s with debug := b }) (·.debug) fun _ => rfl,
    overridden_eq (fun v s => { s with logLevel := v }) (·.logLevel) fun _ => rfl,
    overriddenFlag_eq (fun b s => { s with logSql := b }) (·.logSql) fun _ => rfl,
    overridden_eq (fun v s => { s with database.driver := v }) (·.database.driver) fun _ => rfl,
    overridden_eq (fun v s => { s with database.name := v }) (·.database.name) fun _ => rfl,
    overridden_eq (fun v s => { s with database.host := v }) (·.database.host) fun _ => rfl,
    overridden_eq (fun v s => { s with database.user := v }) (·.database.user) fun _ => rfl,
    overridden_eq (fun v s => { s with database.password := v }) (·.database.password) fun _ => rfl,
    overriddenNumber_eq (fun n s => { s with database.port := n }) (·.database.port) portRange
      fun _ => rfl,
    overriddenNumber_eq (fun n s => { s with database.maxConnections := n })
      (·.database.maxConnections) countRange fun _ => rfl]

/-! ## All layers -/

/-- What a document has for a field of the database, which may be an object or a list. -/
def databasePart (members : List (String × Json)) (place : Nat) (name : String) : Option Json :=
  (Json.member? "database" members).bind (Json.field? place name)

/-- Every setting is the one in effect of an environment, a document and the defaults. -/
structure Layered (lookup : String → Option String) (members : List (String × Json)) (s : Settings) :
    Prop where
  debug : InEffect .bool ((lookup "DJORM_DEBUG").map flagOf) (Json.member? "debug" members)
    ({} : Settings).debug s.debug
  logLevel : InEffect .string (lookup "DJORM_LOG_LEVEL") (Json.member? "log_level" members)
    ({} : Settings).logLevel s.logLevel
  logSql : InEffect .bool ((lookup "DJORM_LOG_SQL").map flagOf) (Json.member? "log_sql" members)
    ({} : Settings).logSql s.logSql
  driver : InEffect .string (lookup "DJORM_DATABASE_DRIVER") (databasePart members 0 "driver")
    ({} : DatabaseSettings).driver s.database.driver
  name : InEffect .string (lookup "DJORM_DATABASE_NAME") (databasePart members 1 "name")
    ({} : DatabaseSettings).name s.database.name
  user : InEffect .string (lookup "DJORM_DATABASE_USER") (databasePart members 2 "user")
    ({} : DatabaseSettings).user s.database.user
  password : InEffect .string (lookup "DJORM_DATABASE_PASSWORD") (databasePart members 3 "password")
    ({} : DatabaseSettings).password s.database.password
  host : InEffect .string (lookup "DJORM_DATABASE_HOST") (databasePart members 4 "host")
    ({} : DatabaseSettings).host s.database.host
  port : InEffect whole ((lookup "DJORM_DATABASE_PORT").bind (numberOf? portRange))
    (databasePart members 5 "port") ({} : DatabaseSettings).port s.database.port
  maxConnections : InEffect whole ((lookup "DJORM_DATABASE_MAX_CONNECTIONS").bind (numberOf? countRange))
    (databasePart members 6 "max_connections") ({} : DatabaseSettings).maxConnections
    s.database.maxConnections
  options : InEffect (table .string) none (databasePart members 7 "options")
    ({} : DatabaseSettings).options s.database.options
  extra : InEffect .object none (Json.member? "extra" members) ({} : Settings).extra s.extra

variable {members : List (String × Json)} {s : Settings}

theorem ofJson_eq_ok {text : String} {document : Json} (h : Json.ofText? text = some document)
    (hs : ofJson text = .ok s) : Decoding.settings ((json {}).merged document) = .ok s := by
  rw [ofJson, ofText, h] at hs
  dsimp only [ofDocument] at hs
  split at hs
  · rename_i hread
    cases hs
    exact hread
  · cases hs

/-- A document that is read over the defaults is the upper layer where it has a value. -/
theorem layered_of_read (hmembers : (Json.object members).Ordered)
    (h : Decoding.settings ((json {}).merged (.object members)) = .ok s) :
    Layered (fun _ => none) members s := by
  have hleaf : ∀ {d : Json}, d.isObject = false → ∀ j : Json, j.Ordered → d.merged j = j :=
    fun hd j _ => Json.merged_of_lower hd
  have hempty : ∀ j : Json, j.Ordered → (Json.object []).merged j = j := fun _ hj => hj.merged_empty
  have htop : ∀ j ∈ some (Json.object members), j.Ordered := by
    rintro j ⟨⟩
    exact hmembers
  obtain ⟨hdebug, hlevel, hsql, ⟨part, hpart, hdatabase⟩, hextra⟩ := Decoding.settings_reads h
  obtain ⟨ascending, parts⟩ : Json.Ascending members ∧ ∀ m ∈ members, m.2.Ordered := by
    cases hmembers with
    | object ascending parts => exact ⟨ascending, parts⟩
  have htable : ∀ j ∈ Json.member? "database" members, j.Ordered := fun j hj =>
    parts _ (Json.mem_of_member? hj)
  -- The table of the database lies over defaults of its own, which is one more reading of the same kind.
  have hover : part = (databaseJson {}).merged ((Json.member? "database" members).getD (.object [])) :=
    table_merged ascending hpart (by decide +kernel)
  rw [hover] at hdatabase
  obtain ⟨hdriver, hname, huser, hpassword, hhost, hport, hcount, hoptions⟩ :=
    Decoding.database_reads hdatabase
  exact
    { debug := inEffect_of_reads htop hdebug Decoding.bool_inverts (hleaf rfl)
      logLevel := inEffect_of_reads htop hlevel Decoding.string_inverts (hleaf rfl)
      logSql := inEffect_of_reads htop hsql Decoding.bool_inverts (hleaf rfl)
      driver := inEffect_of_reads htable hdriver Decoding.string_inverts (hleaf rfl)
      name := inEffect_of_reads htable hname Decoding.string_inverts (hleaf rfl)
      user := inEffect_of_reads htable huser Decoding.string_inverts (hleaf rfl)
      password := inEffect_of_reads htable hpassword Decoding.string_inverts (hleaf rfl)
      host := inEffect_of_reads htable hhost Decoding.string_inverts (hleaf rfl)
      port := inEffect_of_reads htable hport (Decoding.natural_inverts _ _) (hleaf rfl)
      maxConnections := inEffect_of_reads htable hcount (Decoding.natural_inverts _ _) (hleaf rfl)
      options := inEffect_of_reads htable hoptions (Decoding.map_inverts Decoding.string_inverts) hempty
      extra := inEffect_of_reads htop hextra Decoding.map_ok_inverts hempty }

theorem Layered.overlay (h : Layered (fun _ => none) members s) (lookup : String → Option String) :
    Layered lookup members (underEnvironment lookup s).1 := by
  rw [underEnvironment_eq]
  exact
    { debug := h.debug.overlay _
      logLevel := h.logLevel.overlay _
      logSql := h.logSql.overlay _
      driver := h.driver.overlay _
      name := h.name.overlay _
      user := h.user.overlay _
      password := h.password.overlay _
      host := h.host.overlay _
      port := h.port.overlay _
      maxConnections := h.maxConnections.overlay _
      options := h.options
      extra := h.extra }

/--
A setting is what its variable says, if that is set and says a value; else what the document says; else the
default. A document that is merged into another is found wherever it has a part that is no object, or the
other has no object there; what it does not mention stays; and under a part that it replaces nothing stays.
-/
theorem layers_override :
    (∀ (text : String) (members : List (String × Json)) (lookup : String → Option String) (s : Settings),
      Json.ofText? text = some (.object members) → ofJson text = .ok s →
      Layered lookup members (underEnvironment lookup s).1) ∧
    ∀ (base document : Json) (path : List String), document.Ordered →
      (∀ v, document.at? path = some v →
        (v.isObject = false ∨ ∀ old, base.at? path = some old → old.isObject = false) →
        (base.merged document).at? path = some v) ∧
      (¬document.Mentions path → (base.merged document).at? path = base.at? path) ∧
      (document.Mentions path → document.at? path = none → (base.merged document).at? path = none) := by
  refine ⟨fun text members lookup s hdocument hs => ?_, fun base document path hordered => ⟨?_, ?_, ?_⟩⟩
  · have hread := ofJson_eq_ok hdocument hs
    exact (layered_of_read (Json.ofText?_ordered hdocument) hread).overlay lookup
  · intro v hv hwhole
    rw [Json.at?_merged_of_some hordered hv, Json.onto_eq_self hwhole]
  · exact Json.at?_merged_of_unmentioned hordered
  · exact Json.at?_merged_of_replaced hordered

/-- A document with settings in each of its tables. -/
def production : String :=
  "\x7b\"debug\":false,\"database\":\x7b\"driver\":\"postgres\",\"port\":5432\x7d," ++
    "\"extra\":\x7b\"a\":1\x7d\x7d"

def productionMembers : List (String × Json) :=
  [("database", .object [("driver", .string "postgres"), ("port", whole 5432)]), ("debug", .bool false),
    ("extra", .object [("a", whole 1)])]

def productionSettings : Settings :=
  { debug := false, database.driver := "postgres", database.port := 5432, extra := [("a", whole 1)] }

/-- A variable that says a port, and one that says no number. -/
def deployed : String → Option String
  | "DJORM_DATABASE_PORT" => some "6543"
  | "DJORM_DATABASE_MAX_CONNECTIONS" => some "many"
  | _ => none

/-- Two tables of which the upper one has a part of one member and replaces the other. -/
def lowerTable : Json :=
  .object [("a", .object [("b", whole 1), ("c", whole 2)]), ("d", .object [("e", whole 4)])]

def upperTable : Json := .object [("a", .object [("c", whole 3)]), ("d", .null)]

theorem production_overridden :
    (Json.ofText? production = some (.object productionMembers) ∧
      ofJson production = .ok productionSettings ∧
      Layered deployed productionMembers { productionSettings with database.port := 6543 }) ∧
    (upperTable.Ordered ∧
      (lowerTable.merged upperTable).at? ["a", "c"] = some (whole 3) ∧
      (lowerTable.merged upperTable).at? ["a", "b"] = some (whole 1) ∧
      (lowerTable.merged upperTable).at? ["d", "e"] = none) := by
  have hdocument : Json.ofText? production = some (.object productionMembers) := by decide +kernel
  have hsettings : ofJson production = .ok productionSettings := by decide +kernel
  have hdeployed : (underEnvironment deployed productionSettings).1 =
      { productionSettings with database.port := 6543 } := by decide +kernel
  have hordered : upperTable.Ordered := by
    have hcanonical : upperTable.canonical = upperTable := by decide +kernel
    exact hcanonical ▸ Json.ordered_canonical upperTable
  have hkept : ¬upperTable.Mentions ["a", "b"] := by
    simp [upperTable, Json.mentions_cons, Json.member?]
  have hreplaced : upperTable.Mentions ["d", "e"] := .inr ⟨["d"], ["e"], .null, rfl, rfl, rfl⟩
  refine ⟨⟨hdocument, hsettings, ?_⟩, hordered, ?_, ?_, ?_⟩
  · exact hdeployed ▸ layers_override.1 _ _ deployed _ hdocument hsettings
  · exact (layers_override.2 lowerTable upperTable ["a", "c"] hordered).1 _ rfl (.inl rfl)
  · exact (layers_override.2 lowerTable upperTable ["a", "b"] hordered).2.1 hkept
  · exact (layers_override.2 lowerTable upperTable ["d", "e"] hordered).2.2 hreplaced rfl

/-- A document that lists the fields of its database. -/
def listedDatabase : String :=
  "\x7b\"database\":[\"postgres\",\"app\",\"\",\"\",\"\",5432,4,\x7b\x7d]\x7d"

def listedMembers : List (String × Json) :=
  [("database", .array [.string "postgres", .string "app", .string "", .string "", .string "", whole 5432,
    whole 4, .object []])]

def listedSettings : Settings :=
  { database := { driver := "postgres", name := "app", port := 5432, maxConnections := 4 } }

/-- A listed database has its driver from the document, though no member there has that name. -/
theorem listedDatabase_unnamed :
    Json.ofText? listedDatabase = some (.object listedMembers) ∧
    ofJson listedDatabase = .ok listedSettings ∧
    ¬InEffect .string none ((Json.object listedMembers).at? ["database", "driver"])
      ({} : DatabaseSettings).driver (underEnvironment (fun _ => none) listedSettings).1.database.driver := by
  have hunset : (underEnvironment (fun _ => none) listedSettings).1 = listedSettings := rfl
  have hunnamed : (Json.object listedMembers).at? ["database", "driver"] = none := rfl
  refine ⟨by decide +kernel, by decide +kernel, ?_⟩
  rw [hunset, hunnamed]
  exact (by decide : "postgres" ≠ "sqlite")

end Orm.Settings
