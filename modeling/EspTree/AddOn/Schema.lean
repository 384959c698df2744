import Mathlib.Logic.Function.Basic
import Mathlib.Tactic.Ext

/-!
# Schema migrations

`Database.init` of `app/db.py`: the script that creates missing tables, and the migrations that are
newer than the database.  The connection is in autocommit mode, so every statement is a transaction of
its own and the program may be interrupted after any of them.

A row gives a value to every name, of which only those of the columns of its table matter.  Primary
keys and other constraints are part of the text of a column: the statements of the migrations do not
violate them, as `uuid4` gives new values.  A text in a column with `INTEGER` affinity is not a numeral,
so `int` of it raises.
-/

namespace EspTree.AddOn.Schema

/-- A value of SQLite. -/
inductive Value
  | null
  | int (n : Int)
  | text (s : String)
  deriving DecidableEq, Repr

/-- `value or default`. -/
def Value.or (value dflt : Value) : Value :=
  if value = .null ∨ value = .int 0 ∨ value = .text "" then dflt else value

/-- `int(value)`. -/
def Value.toInt : Value → Option Int
  | .int n => some n
  | _ => none

structure Column where
  name : String
  decl : String
  dflt : Value := .null
  deriving DecidableEq

abbrev Row := String → Value

structure Table where
  columns : List Column
  rows : List Row := []

namespace Table

variable (t : Table)

def names : List String := t.columns.map (·.name)

/-- `ALTER TABLE … ADD COLUMN`: the rows get the default. -/
def addColumn (column : Column) : Table :=
  { columns := t.columns ++ [column]
    rows := t.rows.map fun row => Function.update row column.name column.dflt }

/-- `INSERT` of some columns. -/
def insert (values : List (String × Value)) : Table :=
  { t with rows := t.rows ++ [fun name => match values.lookup name with
      | some value => value
      | none => ((t.columns.find? (·.name == name)).map (·.dflt)).getD .null] }

/-- `row.get(name)` of a row that is selected with the columns that are there. -/
def get (row : Row) (name : String) : Value := if name ∈ t.names then row name else .null

end Table

/-- An index, under its name. -/
structure Index where
  table : String
  columns : List String
  deriving DecidableEq

/-- The file.  `schema_versions` stands apart from the other tables. -/
@[ext]
structure Store where
  versions : Option (List Nat) := none
  tables : String → Option Table := fun _ => none
  indexes : String → Option Index := fun _ => none

namespace Store

variable (db : Store)

/-- `_get_schema_version`. -/
def version : Nat := (db.versions.getD []).foldl max 0

/-- `_set_schema_version`. -/
def setVersion (version : Nat) : Store :=
  { db with versions := some (db.versions.getD [] ++ [version]) }

def hasColumn (table column : String) : Bool := (db.tables table).any fun t => decide (column ∈ t.names)

def setTable (name : String) (t : Option Table) : Store :=
  { db with tables := Function.update db.tables name t }

end Store

/-- The statements, and an exception of the program between them. -/
inductive Command
  | createVersions
  | createTable (name : String) (columns : List Column)
  | createIndex (name : String) (index : Index)
  | addColumn (table : String) (column : Column)
  | addColumnIfNotExists (table : String) (column : Column)
  | dropTable (name : String)
  | insertBridge (values : List (String × Value))
  | raise

namespace Command

/-- `CREATE TABLE IF NOT EXISTS`. -/
def runCreateTable (name : String) (columns : List Column) (db : Store) : Store :=
  if (db.tables name).isSome then db else db.setTable name (some { columns })

/-- `ALTER TABLE … ADD COLUMN`, which fails for a column that is there. -/
def runAddColumn (table : String) (column : Column) (db : Store) : Option Store :=
  match db.tables table with
  | none => none
  | some t =>
    if column.name ∈ t.names then none else some (db.setTable table (some (t.addColumn column)))

/-- One statement; `none` is an exception. -/
def run : Command → Store → Option Store
  | .createVersions, db => some { db with versions := some (db.versions.getD []) }
  | .createTable name columns, db => some (runCreateTable name columns db)
  | .createIndex name index, db =>
    if (db.indexes name).isSome then some db
    else if index.columns.all (db.hasColumn index.table) then
      some { db with indexes := Function.update db.indexes name (some index) }
    else none
  | .addColumn table column, db => runAddColumn table column db
  | .addColumnIfNotExists table column, db => some ((runAddColumn table column db).getD db)
  | .dropTable name, db =>
    -- the indexes of a table go with it
    some { db.setTable name none with
      indexes := fun i => (db.indexes i).filter fun index => index.table ≠ name }
  | .insertBridge values, db =>
    match db.tables "bridges" with
    | none => none
    | some t =>
      if values.all fun value => value.1 ∈ t.names then
        some (db.setTable "bridges" (some (t.insert values)))
      else none
  | .raise, _ => none

/-- Statements, one after the other. -/
def runAll : List Command → Store → Option Store
  | [], db => some db
  | command :: commands, db => (command.run db).bind (runAll commands)

end Command

/-! ## The script -/

def devicesColumns : List Column :=
  [⟨"mac", "TEXT PRIMARY KEY", .null⟩, ⟨"node_key", "TEXT", .null⟩, ⟨"label", "TEXT", .null⟩,
    ⟨"esphome_name", "TEXT", .null⟩, ⟨"bridge_host", "TEXT", .null⟩,
    ⟨"last_seen_online", "INTEGER", .null⟩, ⟨"current_firmware_version", "TEXT", .null⟩,
    ⟨"current_project_name", "TEXT", .null⟩, ⟨"firmware_build_date", "TEXT", .null⟩,
    ⟨"firmware_md5", "TEXT", .null⟩, ⟨"chip_name", "TEXT", .null⟩, ⟨"rssi", "INTEGER", .null⟩,
    ⟨"hops", "INTEGER", .null⟩, ⟨"entity_count", "INTEGER", .null⟩, ⟨"created_at", "INTEGER", .null⟩,
    ⟨"updated_at", "INTEGER", .null⟩]

def otaJobsColumns : List Column :=
  [⟨"id", "INTEGER PRIMARY KEY AUTOINCREMENT", .null⟩, ⟨"mac", "TEXT NOT NULL", .null⟩,
    ⟨"status", "TEXT NOT NULL", .null⟩, ⟨"firmware_path", "TEXT", .null⟩,
    ⟨"retained_until", "INTEGER", .null⟩, ⟨"firmware_name", "TEXT", .null⟩,
    ⟨"firmware_size", "INTEGER", .null⟩, ⟨"firmware_md5", "TEXT", .null⟩,
    ⟨"parsed_project_name", "TEXT", .null⟩, ⟨"parsed_version", "TEXT", .null⟩,
    ⟨"parsed_esphome_name", "TEXT", .null⟩, ⟨"parsed_build_date", "TEXT", .null⟩,
    ⟨"parsed_chip_name", "TEXT", .null⟩, ⟨"old_firmware_version", "TEXT", .null⟩,
    ⟨"old_project_name", "TEXT", .null⟩, ⟨"preflight_warnings", "TEXT", .null⟩,
    ⟨"percent", "INTEGER DEFAULT 0", .int 0⟩, ⟨"bridge_state", "TEXT", .null⟩,
    ⟨"total_chunks", "INTEGER", .null⟩, ⟨"chunks_sent", "INTEGER DEFAULT 0", .int 0⟩,
    ⟨"error_msg", "TEXT", .null⟩, ⟨"started_at", "INTEGER", .null⟩,
    ⟨"completed_at", "INTEGER", .null⟩, ⟨"created_at", "INTEGER NOT NULL", .null⟩,
    ⟨"updated_at", "INTEGER", .null⟩]

/-- `_create_bridge_table` has the same ones. -/
def bridgesColumns : List Column :=
  [⟨"uuid", "TEXT PRIMARY KEY", .null⟩, ⟨"name", "TEXT", .null⟩, ⟨"host", "TEXT NOT NULL", .null⟩,
    ⟨"port", "INTEGER DEFAULT 80", .int 80⟩,
    ⟨"discovered_via", "TEXT DEFAULT 'manual'", .text "manual"⟩,
    ⟨"api_key", "TEXT DEFAULT ''", .text ""⟩, ⟨"network_id", "TEXT DEFAULT ''", .text ""⟩,
    ⟨"hostname", "TEXT DEFAULT ''", .text ""⟩, ⟨"mac", "TEXT DEFAULT ''", .text ""⟩,
    ⟨"flash_wizard_pending", "INTEGER DEFAULT 0", .int 0⟩, ⟨"enabled", "INTEGER DEFAULT 1", .int 1⟩,
    ⟨"last_connected_at", "INTEGER", .null⟩, ⟨"created_at", "INTEGER", .null⟩]

/-- The script of `init`. -/
def script : List Command :=
  [.createVersions, .createTable "devices" devicesColumns, .createTable "ota_jobs" otaJobsColumns,
    .createIndex "idx_ota_jobs_mac_created" ⟨"ota_jobs", ["mac", "created_at"]⟩,
    .createIndex "idx_ota_jobs_status" ⟨"ota_jobs", ["status"]⟩,
    .createTable "bridges" bridgesColumns]

/-! ## The migrations -/

/-- What a run of `init` gets from `uuid4` and from the clock. -/
structure Env where
  uuid : Nat → String
  now : Nat
  pos : 0 < now

/-- The columns of `bridges` for which migration 11 has nothing to do. -/
def uuidColumns : List String :=
  ["uuid", "name", "host", "port", "discovered_via", "api_key", "network_id", "enabled",
    "last_connected_at", "created_at"]

/-- The rows that migration 11 carries over. -/
def Table.carried (t : Table) : List Row :=
  if "host" ∈ t.names then t.rows.filter fun row => row "host" ≠ .null else []

/-- The `index`-th row that migration 11 inserts. -/
def insertCarried (env : Env) (t : Table) (index : Nat) (row : Row) : Command :=
  match ((t.get row "port").or (.int 80)).toInt with
  | none => .raise
  | some port => .insertBridge
    [("uuid", .text (env.uuid index)), ("name", t.get row "name"), ("host", t.get row "host"),
      ("port", .int port), ("discovered_via", (t.get row "discovered_via").or (.text "manual")),
      ("api_key", (t.get row "api_key").or (.text "")),
      ("network_id", (t.get row "network_id").or (.text "")), ("enabled", .int 1),
      ("last_connected_at", t.get row "last_connected_at"),
      ("created_at", (t.get row "created_at").or (.int env.now))]

/-- The table that migration 11 looks at. -/
def Store.bridges (db : Store) : Table := (db.tables "bridges").getD { columns := [] }

/-- The columns of the table are those that migration 11 makes for. -/
def Table.isUuid (t : Table) : Bool :=
  t.names.all (· ∈ uuidColumns) && uuidColumns.all (· ∈ t.names)

def migration011UuidBridgeTable (env : Env) (db : Store) : List Command :=
  if db.bridges.isUuid then [.dropTable "bridge_config"]
  else
    [.dropTable "bridges", .createTable "bridges" bridgesColumns, .dropTable "bridge_config"] ++
      db.bridges.carried.mapIdx (insertCarried env db.bridges)

def migration013AddHostname (db : Store) : List Command :=
  if "hostname" ∈ db.bridges.names then []
  else [.addColumnIfNotExists "bridges" ⟨"hostname", "TEXT DEFAULT ''", .text ""⟩]

/-- A migration: its version, and the statements that it runs on a database. -/
structure Migration where
  version : Nat
  commands : Env → Store → List Command

def migrations : List Migration :=
  [⟨1, fun _ _ => [.addColumnIfNotExists "devices" ⟨"firmware_md5", "TEXT", .null⟩]⟩,
    ⟨2, fun _ _ => [.addColumnIfNotExists "ota_jobs" ⟨"queue_order", "INTEGER", .null⟩]⟩,
    ⟨3, fun _ _ => [.addColumnIfNotExists "ota_jobs" ⟨"esphome_name", "TEXT", .null⟩]⟩,
    ⟨4, fun _ _ => [.addColumnIfNotExists "ota_jobs" ⟨"current_increment", "INTEGER", .null⟩,
      .addColumnIfNotExists "ota_jobs" ⟨"total_increments", "INTEGER", .null⟩,
      .addColumnIfNotExists "ota_jobs" ⟨"retransmit_round", "INTEGER DEFAULT 0", .int 0⟩,
      .addColumnIfNotExists "ota_jobs" ⟨"buffer_size_kb", "INTEGER", .null⟩]⟩,
    ⟨5, fun _ _ => [.addColumnIfNotExists "ota_jobs" ⟨"log_events", "TEXT", .null⟩]⟩,
    ⟨6, fun _ _ => [.createIndex "idx_ota_jobs_queue_order" ⟨"ota_jobs", ["queue_order"]⟩,
      .createIndex "idx_ota_jobs_esphome_name" ⟨"ota_jobs", ["esphome_name"]⟩]⟩,
    ⟨8, fun _ _ => [.addColumnIfNotExists "bridges" ⟨"api_key", "TEXT", .null⟩]⟩,
    ⟨9, fun _ _ => [.addColumnIfNotExists "bridges" ⟨"network_id", "TEXT", .null⟩]⟩,
    ⟨10, fun _ _ => [.createTable "hidden_devices"
      [⟨"mac", "TEXT PRIMARY KEY", .null⟩, ⟨"hidden_at", "INTEGER NOT NULL", .null⟩]]⟩,
    ⟨11, migration011UuidBridgeTable⟩,
    ⟨13, fun _ db => migration013AddHostname db⟩,
    ⟨14, fun _ _ => [.createTable "discovered_bridges"
      [⟨"id", "INTEGER PRIMARY KEY AUTOINCREMENT", .null⟩, ⟨"host", "TEXT NOT NULL", .null⟩,
        ⟨"port", "INTEGER NOT NULL", .null⟩, ⟨"name", "TEXT", .null⟩, ⟨"version", "TEXT", .null⟩,
        ⟨"network_id", "TEXT", .null⟩, ⟨"hostname", "TEXT", .null⟩,
        ⟨"discovered_at", "INTEGER NOT NULL", .null⟩]]⟩,
    ⟨15, fun _ _ => [.addColumn "ota_jobs" ⟨"auto_flash", "INTEGER DEFAULT 0", .int 0⟩]⟩,
    ⟨16, fun _ _ =>
      [.addColumnIfNotExists "bridges" ⟨"flash_wizard_pending", "INTEGER DEFAULT 0", .int 0⟩]⟩,
    ⟨17, fun _ _ => [.addColumnIfNotExists "bridges" ⟨"mac", "TEXT DEFAULT ''", .text ""⟩]⟩,
    ⟨18, fun _ _ => [.addColumn "bridges" ⟨"transport", "TEXT DEFAULT 'wifi'", .text "wifi"⟩,
      .addColumn "bridges" ⟨"serial_port", "TEXT DEFAULT ''", .text ""⟩,
      .addColumn "bridges" ⟨"baud", "INTEGER DEFAULT 460800", .int 460800⟩]⟩]

/-- The migrations that are newer than the database. -/
def Store.pending (db : Store) : List Migration :=
  migrations.filter fun migration => decide (db.version < migration.version)

/-- `_run_migrations`, from some migration on. -/
def runMigrations (env : Env) : List Migration → Store → Option Store
  | [], db => some db
  | migration :: rest, db =>
    (Command.runAll (migration.commands env db) db).bind fun db =>
      runMigrations env rest (db.setVersion migration.version)

def init (env : Env) (db : Store) : Option Store :=
  (Command.runAll script db).bind fun db => runMigrations env db.pending db

/-- The migrations are interrupted: between the statements of one, before its version is set, or
after that. -/
inductive Partial (env : Env) : List Migration → Store → Store → Prop
  | inside {migration : Migration} {rest : List Migration} {db mid : Store} (n : Nat)
      (h : Command.runAll ((migration.commands env db).take n) db = some mid) :
      Partial env (migration :: rest) db mid
  | after {migration : Migration} {rest : List Migration} {db db' mid : Store}
      (h : Command.runAll (migration.commands env db) db = some db')
      (hrest : Partial env rest (db'.setVersion migration.version) mid) :
      Partial env (migration :: rest) db mid
  | done {db : Store} : Partial env [] db db

/-- A run of `init` is interrupted after some statement. -/
inductive Interrupted (env : Env) (db : Store) : Store → Prop
  | script {mid : Store} (n : Nat) (h : Command.runAll (script.take n) db = some mid) :
      Interrupted env db mid
  | migrations {db' mid : Store} (h : Command.runAll Schema.script db = some db')
      (hp : Partial env db'.pending db' mid) : Interrupted env db mid

end EspTree.AddOn.Schema
