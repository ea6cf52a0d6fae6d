import EventIntake.Event.Category
import EventIntake.Json.Record
import EventIntake.Store.Basic

/-! The settings of the program and their JSON form. -/
namespace EventIntake.Config
open Event Json

/-- What to subscribe to and how to batch. -/
structure Ingest where
  eventTypes : List Category :=
    [.moveEvent, .publish, .coinBalanceChange, .transferObject, .newObject]
  /-- The number of records of a subscription that are stored together. -/
  flushThreshold : UInt64 := 100
  /-- How often a subscription that failed for the moment is tried again. -/
  subscribeRetries : UInt64 := 5
  deriving DecidableEq, Repr

/-- A database file. -/
structure Sqlite where
  path : String := "data/suiwatch.db"
  deriving DecidableEq, Repr

/-- A database server. -/
structure Postgres where
  uri : String := "postgres://localhost:5432/suiwatch"
  poolSize : UInt32 := 50
  deriving DecidableEq, Repr

/-- Where to store events, and whether to overwrite stored ones. -/
structure Storage where
  backend : Backend := .sqlite
  sqlite : Sqlite := {}
  postgres : Postgres := {}
  upsert : Bool := true
  deriving DecidableEq, Repr

structure Settings where
  ingest : Ingest := {}
  storage : Storage := {}
  deriving DecidableEq, Repr

/-- Every kind of database under its name. -/
def backends : List (String × Backend) :=
  [Backend.sqlite, Backend.postgres].map fun b => (b.name, b)

/-! ### JSON -/

def categoryCodec : Codec Category := .choice Category.byName Category.name

def Ingest.codec : Codec Ingest :=
  .record "IngestConfig"
    [.defaulted "event_types" (.list categoryCodec) ({} : Ingest).eventTypes,
      .defaulted "flush_threshold" .count ({} : Ingest).flushThreshold,
      .defaulted "subscribe_retries" .count ({} : Ingest).subscribeRetries]
    (fun (eventTypes, flushThreshold, subscribeRetries, ()) =>
      ⟨eventTypes, flushThreshold, subscribeRetries⟩)
    fun s => (s.eventTypes, s.flushThreshold, s.subscribeRetries, ())

def Sqlite.codec : Codec Sqlite :=
  .record "SqliteConfig" [.defaulted "path" .text ({} : Sqlite).path]
    (fun (path, ()) => ⟨path⟩) fun s => (s.path, ())

def Postgres.codec : Codec Postgres :=
  .record "PostgresConfig"
    [.defaulted "uri" .text ({} : Postgres).uri,
      .defaulted "pool_size" .uint32 ({} : Postgres).poolSize]
    (fun (uri, poolSize, ()) => ⟨uri, poolSize⟩) fun s => (s.uri, s.poolSize, ())

def Storage.codec : Codec Storage :=
  .record "StorageConfig"
    [.defaulted "type" (.choice backends Backend.name) ({} : Storage).backend,
      .defaulted "sqlite" Sqlite.codec {}, .defaulted "postgres" Postgres.codec {},
      .defaulted "upsert" .bool ({} : Storage).upsert]
    (fun (backend, sqlite, postgres, upsert, ()) => ⟨backend, sqlite, postgres, upsert⟩)
    fun s => (s.backend, s.sqlite, s.postgres, s.upsert, ())

def Settings.codec : Codec Settings :=
  .record "Config" [.defaulted "ingest" Ingest.codec {}, .defaulted "storage" Storage.codec {}]
    (fun (ingest, storage, ()) => ⟨ingest, storage⟩) fun s => (s.ingest, s.storage, ())

/-! ### Validity -/

/-- A threshold that no batch can have. -/
structure InvalidThreshold where
  threshold : UInt64
  deriving DecidableEq, Repr

def InvalidThreshold.message (e : InvalidThreshold) : String :=
  "Invalid flush threshold " ++ toString e.threshold.toNat ++ ": must be at least 1"

/-- Refuses settings under which no record would ever be buffered. -/
def Settings.validate (s : Settings) : Except InvalidThreshold Settings :=
  if s.ingest.flushThreshold = 0 then .error ⟨s.ingest.flushThreshold⟩ else .ok s

end EventIntake.Config
