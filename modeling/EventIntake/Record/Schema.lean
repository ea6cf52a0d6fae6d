import EventIntake.Event.Category

/-! The tables of events. Each category has one, keyed by transaction digest and event sequence. -/
namespace EventIntake.Schema
open Event

/-- The type of a column. -/
inductive ColumnKind
  | text
  | bigInt
  deriving DecidableEq, Repr

/-- The key columns of every table. -/
def keyColumns : List (String × ColumnKind) := [("tx_digest", .text), ("event_seq", .bigInt)]

def tableName : Category → String
  | .moveEvent => "move_events"
  | .publish => "publish_events"
  | .coinBalanceChange => "coin_balance_change_events"
  | .transferObject => "transfer_object_events"
  | .newObject => "new_object_events"
  | .deleteObject => "delete_object_events"
  | .mutateObject => "mutate_object_events"
  | .epochChange => "epoch_change_events"
  | .checkpoint => "checkpoint_events"

/-- The columns that say where an event came from. -/
def originColumns : List (String × ColumnKind) :=
  [("package_id", .text), ("transaction_module", .text), ("sender", .text)]

/-- The columns besides the key, in order. -/
def dataColumns (c : Category) : List (String × ColumnKind) :=
  ("timestamp", .bigInt) :: match c with
    | .moveEvent => originColumns ++ [("type", .text), ("fields", .text), ("bcs", .text)]
    | .publish => [("sender", .text), ("package_id", .text), ("version", .bigInt), ("digest", .text)]
    | .coinBalanceChange => originColumns ++
      [("change_type", .text), ("owner", .text), ("coin_type", .text), ("coin_object_id", .text),
        ("version", .bigInt), ("amount", .bigInt)]
    | .transferObject | .newObject => originColumns ++
      [("recipient", .text), ("object_type", .text), ("object_id", .text), ("version", .bigInt)]
    | .deleteObject => originColumns ++ [("object_id", .text), ("version", .bigInt)]
    | .mutateObject => originColumns ++
      [("object_type", .text), ("object_id", .text), ("version", .bigInt)]
    | .epochChange => [("epoch_id", .bigInt)]
    | .checkpoint => [("checkpoint_sequence_number", .bigInt)]

/-- Key and data columns. -/
def columns (c : Category) : List (String × ColumnKind) := keyColumns ++ dataColumns c

/-- The category whose table has the name. -/
def ofTable? (table : String) : Option Category :=
  Category.all.find? fun c => tableName c == table

end EventIntake.Schema
