import EventIntake.Event.Category
import EventIntake.Event.Owner
import EventIntake.Json.Record

/-! The payloads of events and their wire form. -/
namespace EventIntake.Event
open Json

/-- An event emitted by a package. -/
structure MoveEvent where
  packageId : String
  transactionModule : String
  sender : String
  type : String
  fields : Value
  bcs : String
  deriving Repr

/-- A published module. -/
structure Publish where
  sender : String
  packageId : String
  version : Int64
  digest : String
  deriving DecidableEq, Repr

/-- Why a balance changed. -/
inductive ChangeType
  | gas
  | pay
  | receive
  deriving DecidableEq, Repr

def ChangeType.name : ChangeType → String
  | gas => "Gas"
  | pay => "Pay"
  | receive => "Receive"

/-- A change of a coin balance. -/
structure CoinBalanceChange where
  packageId : String
  transactionModule : String
  sender : String
  changeType : ChangeType
  owner : Option Owner
  coinType : String
  coinObjectId : String
  version : Int64
  amount : Int64
  deriving DecidableEq, Repr

/-- An object handed to an owner: transferred, or newly created. -/
structure ObjectTransfer where
  packageId : String
  transactionModule : String
  sender : String
  recipient : Option Owner
  objectType : String
  objectId : String
  version : Int64
  deriving DecidableEq, Repr

/-- A mutated object. -/
structure MutateObject where
  packageId : String
  transactionModule : String
  sender : String
  objectType : String
  objectId : String
  version : Int64
  deriving DecidableEq, Repr

/-- A deleted object. -/
structure DeleteObject where
  packageId : String
  transactionModule : String
  sender : String
  objectId : String
  version : Int64
  deriving DecidableEq, Repr

/-- The payload of one entry of an envelope. -/
inductive Payload
  | moveEvent (e : MoveEvent)
  | publish (e : Publish)
  | coinBalanceChange (e : CoinBalanceChange)
  | transferObject (e : ObjectTransfer)
  | newObject (e : ObjectTransfer)
  | deleteObject (e : DeleteObject)
  | mutateObject (e : MutateObject)
  | epochChange (epochId : UInt64)
  | checkpoint (sequenceNumber : UInt64)
  deriving Repr

def Payload.category : Payload → Category
  | moveEvent _ => .moveEvent
  | publish _ => .publish
  | coinBalanceChange _ => .coinBalanceChange
  | transferObject _ => .transferObject
  | newObject _ => .newObject
  | deleteObject _ => .deleteObject
  | mutateObject _ => .mutateObject
  | epochChange _ => .epochChange
  | checkpoint _ => .checkpoint

/-! ### Wire forms -/

namespace Wire

def text (name : String) : Field := .required name .text
def int64 (name : String) : Field := .required name .int64
def uint64 (name : String) : Field := .required name .uint64

/-- An owner that may be null or absent. -/
def owner (name : String) : Field := .defaulted name (.optional Owner.codec) none

end Wire

def MoveEvent.codec : Codec MoveEvent :=
  .record "MoveEvent"
    [Wire.text "packageId", Wire.text "transactionModule", Wire.text "sender", Wire.text "type",
      .defaulted "fields" .value .null, .defaulted "bcs" .text ""]
    (fun (packageId, transactionModule, sender, type, fields, bcs, ()) =>
      ⟨packageId, transactionModule, sender, type, fields, bcs⟩)
    fun e => (e.packageId, e.transactionModule, e.sender, e.type, e.fields, e.bcs, ())

def Publish.codec : Codec Publish :=
  .record "Publish"
    [Wire.text "sender", Wire.text "packageId", Wire.int64 "version", Wire.text "digest"]
    (fun (sender, packageId, version, digest, ()) => ⟨sender, packageId, version, digest⟩)
    fun e => (e.sender, e.packageId, e.version, e.digest, ())

def ChangeType.codec : Codec ChangeType :=
  .choice ([gas, pay, receive].map fun c => (c.name, c)) name

def CoinBalanceChange.codec : Codec CoinBalanceChange :=
  .record "CoinBalanceChange"
    [Wire.text "packageId", Wire.text "transactionModule", Wire.text "sender",
      .required "changeType" ChangeType.codec, Wire.owner "owner", Wire.text "coinType",
      Wire.text "coinObjectId", Wire.int64 "version", Wire.int64 "amount"]
    (fun (packageId, transactionModule, sender, changeType, owner, coinType, coinObjectId, version,
        amount, ()) =>
      ⟨packageId, transactionModule, sender, changeType, owner, coinType, coinObjectId, version,
        amount⟩)
    fun e => (e.packageId, e.transactionModule, e.sender, e.changeType, e.owner, e.coinType,
      e.coinObjectId, e.version, e.amount, ())

/-- Transfers and creations differ in name only. -/
def ObjectTransfer.codec (name : String) : Codec ObjectTransfer :=
  .record name
    [Wire.text "packageId", Wire.text "transactionModule", Wire.text "sender",
      Wire.owner "recipient", Wire.text "objectType", Wire.text "objectId", Wire.int64 "version"]
    (fun (packageId, transactionModule, sender, recipient, objectType, objectId, version, ()) =>
      ⟨packageId, transactionModule, sender, recipient, objectType, objectId, version⟩)
    fun e => (e.packageId, e.transactionModule, e.sender, e.recipient, e.objectType, e.objectId,
      e.version, ())

def MutateObject.codec : Codec MutateObject :=
  .record "MutateObject"
    [Wire.text "packageId", Wire.text "transactionModule", Wire.text "sender",
      Wire.text "objectType", Wire.text "objectId", Wire.int64 "version"]
    (fun (packageId, transactionModule, sender, objectType, objectId, version, ()) =>
      ⟨packageId, transactionModule, sender, objectType, objectId, version⟩)
    fun e => (e.packageId, e.transactionModule, e.sender, e.objectType, e.objectId, e.version, ())

def DeleteObject.codec : Codec DeleteObject :=
  .record "DeleteObject"
    [Wire.text "packageId", Wire.text "transactionModule", Wire.text "sender",
      Wire.text "objectId", Wire.int64 "version"]
    (fun (packageId, transactionModule, sender, objectId, version, ()) =>
      ⟨packageId, transactionModule, sender, objectId, version⟩)
    fun e => (e.packageId, e.transactionModule, e.sender, e.objectId, e.version, ())

/-- A structure whose only field is a count. -/
def countCodec (name field : String) : Codec UInt64 :=
  .record name [Wire.uint64 field] (fun (n, ()) => n) fun n => (n, ())

def epochCodec : Codec UInt64 := countCodec "EpochChange" "epoch_id"

def checkpointCodec : Codec UInt64 := countCodec "Checkpoint" "checkpoint_sequence_number"

namespace Payload

/-- The decoders of payloads, each under the category whose tag it goes by. -/
def decoders : List (Category × (String → Except Fault Payload)) :=
  [(.moveEvent, fun s => moveEvent <$> MoveEvent.codec.decode s),
    (.publish, fun s => publish <$> Publish.codec.decode s),
    (.coinBalanceChange, fun s => coinBalanceChange <$> CoinBalanceChange.codec.decode s),
    (.transferObject, fun s => transferObject <$> (ObjectTransfer.codec "TransferObject").decode s),
    (.newObject, fun s => newObject <$> (ObjectTransfer.codec "NewObject").decode s),
    (.deleteObject, fun s => deleteObject <$> DeleteObject.codec.decode s),
    (.mutateObject, fun s => mutateObject <$> MutateObject.codec.decode s),
    (.epochChange, fun s => epochChange <$> epochCodec.decode s),
    (.checkpoint, fun s => checkpoint <$> checkpointCodec.decode s)]

/-- The decoder that a tag calls for. -/
def decoder? (tag : String) : Option (String → Except Fault Payload) :=
  (decoders.find? fun d => d.1.tag == tag).map Prod.snd

/-- Compact text with the wire names in order; an absent owner is null. -/
def encode : Payload → String
  | moveEvent e => MoveEvent.codec.encode e
  | publish e => Publish.codec.encode e
  | coinBalanceChange e => CoinBalanceChange.codec.encode e
  | transferObject e => (ObjectTransfer.codec "TransferObject").encode e
  | newObject e => (ObjectTransfer.codec "NewObject").encode e
  | deleteObject e => DeleteObject.codec.encode e
  | mutateObject e => MutateObject.codec.encode e
  | epochChange n => epochCodec.encode n
  | checkpoint n => checkpointCodec.encode n

end Payload

end EventIntake.Event
