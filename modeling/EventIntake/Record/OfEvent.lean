import EventIntake.Event.Envelope
import EventIntake.Record.Row
import EventIntake.Record.Schema

/-! The row that stores an event. -/
namespace EventIntake
open Event

namespace Row

/-- A count as a column value; counts that do not fit are capped. -/
def capped (n : UInt64) : Int64 := Int64.ofInt (min n.toNat Int64.maxValue.toInt)

/-- A row of the table of a category, its data in the order of the schema. -/
def inTable (c : Category) (txDigest : String) (eventSeq : Int64) (data : List Cell) : Row where
  table := Schema.tableName c
  keys := [("tx_digest", .text txDigest), ("event_seq", .int eventSeq)]
  data := ((Schema.dataColumns c).map Prod.fst).zip data

/-- A row with the key that an event has within the feed, and its data behind the timestamp. -/
def keyed (info : Meta) (table : String) (data : Columns) : Row where
  table := table
  keys := [("tx_digest", .text info.txDigest), ("event_seq", .int info.eventSeq)]
  data := ("timestamp", .int (capped info.timestamp)) :: data

/-- The columns that say where an event came from. -/
def origin (packageId transactionModule sender : String) : Columns :=
  [("package_id", .text packageId), ("transaction_module", .text transactionModule),
    ("sender", .text (Address.normalize sender))]

/-- The columns of an object handed to an owner. -/
def transferred (e : ObjectTransfer) : Columns :=
  origin e.packageId e.transactionModule e.sender ++
    [("recipient", .text (Owner.text e.recipient)), ("object_type", .text e.objectType),
      ("object_id", .text e.objectId), ("version", .int e.version)]

/-- The row of an event. -/
def ofEvent (info : Meta) : Payload → Row
  | .moveEvent e => keyed info (Schema.tableName .moveEvent)
    (origin e.packageId e.transactionModule e.sender ++
      [("type", .text e.type), ("fields", .text (String.ofList e.fields.write)), ("bcs", .text e.bcs)])
  | .publish e => keyed info (Schema.tableName .publish)
    [("sender", .text (Address.normalize e.sender)), ("package_id", .text e.packageId),
      ("version", .int e.version), ("digest", .text e.digest)]
  | .coinBalanceChange e => keyed info (Schema.tableName .coinBalanceChange)
    (origin e.packageId e.transactionModule e.sender ++
      [("change_type", .text e.changeType.name), ("owner", .text (Owner.text e.owner)),
        ("coin_type", .text e.coinType), ("coin_object_id", .text e.coinObjectId),
        ("version", .int e.version), ("amount", .int e.amount)])
  | .transferObject e => keyed info (Schema.tableName .transferObject) (transferred e)
  | .newObject e => keyed info (Schema.tableName .newObject) (transferred e)
  | .mutateObject e => keyed info (Schema.tableName .mutateObject)
    (origin e.packageId e.transactionModule e.sender ++
      [("object_type", .text e.objectType), ("object_id", .text e.objectId), ("version", .int e.version)])
  | .deleteObject e => keyed info (Schema.tableName .deleteObject)
    (origin e.packageId e.transactionModule e.sender ++
      [("object_id", .text e.objectId), ("version", .int e.version)])
  | .epochChange epochId =>
    keyed info (Schema.tableName .epochChange) [("epoch_id", .int (capped epochId))]
  | .checkpoint sequenceNumber =>
    keyed info (Schema.tableName .checkpoint) [("checkpoint_sequence_number", .int (capped sequenceNumber))]

end Row

/-- A record of the one row of an event. -/
def Record.ofEvent (info : Meta) (p : Payload) : Record := [Row.ofEvent info p]

end EventIntake
