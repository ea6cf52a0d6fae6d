import EventIntake.Event.Payload

/-! Pushes of the node: envelopes with tagged payloads, and the notifications they come in. -/
namespace EventIntake.Event
open Json

/-- The handle of an active subscription. -/
abbrev SubscriptionId := UInt64

/-- What the payloads of an envelope share. -/
structure Meta where
  /-- Milliseconds. -/
  timestamp : UInt64
  txDigest : String
  eventSeq : Int64
  deriving DecidableEq, Repr

/-- A push whose payloads are still text, ascending by tag. -/
structure Envelope where
  info : Meta
  payloads : List (String × String)
  deriving DecidableEq, Repr

/-- Why a push was not decoded. -/
inductive DecodeError
  | envelope (fault : Fault)
  | emptyPayload
  | notification (fault : Fault)
  | unknownTag (tag : String)
  | payload (tag : String) (fault : Fault)
  deriving DecidableEq, Repr

def DecodeError.message : DecodeError → String
  | envelope fault => "Malformed event envelope: " ++ fault.summary
  | emptyPayload => "Event envelope carries no payload"
  | notification fault => "Malformed subscription notification: " ++ fault.summary
  | unknownTag tag => "Unknown event tag: " ++ tag
  | payload tag fault => "Malformed '" ++ tag ++ "' payload: " ++ fault.summary

namespace Wire

/-- The place of an event within a transaction. -/
structure EventId where
  txDigest : String
  eventSeq : Int64

def EventId.codec : Codec EventId :=
  .record "WireEventId" [.defaulted "txDigest" .text "", int64 "eventSeq"]
    (fun (txDigest, eventSeq, ()) => ⟨txDigest, eventSeq⟩) fun i => (i.txDigest, i.eventSeq, ())

/-- An envelope as the node sends it. -/
structure Push where
  timestamp : UInt64
  txDigest : String
  id : EventId
  event : List (String × String)

def Push.codec : Codec Push :=
  .record "WireEnvelope"
    [uint64 "timestamp", .defaulted "txDigest" .text "", .required "id" EventId.codec,
      .required "event" .rawMembers]
    (fun (timestamp, txDigest, id, event, ()) => ⟨timestamp, txDigest, id, event⟩)
    fun p => (p.timestamp, p.txDigest, p.id, p.event, ())

end Wire

/-- Decodes the envelope of a push. The digest of the event counts before that of the envelope. -/
def Envelope.decode (s : String) : Except DecodeError Envelope :=
  match Wire.Push.codec.decode s with
  | .error fault => .error (.envelope fault)
  | .ok p =>
    if p.event.isEmpty then .error .emptyPayload
    else
      let txDigest := if p.id.txDigest.isEmpty then p.txDigest else p.id.txDigest
      .ok ⟨⟨p.timestamp, txDigest, p.id.eventSeq⟩, p.event⟩

/-- Whether a payload can be decoded under a tag. -/
def knownTag (tag : String) : Bool := (Payload.decoder? tag).isSome

/-- Decodes the payload under a tag. -/
def decodeTagged (tag : String) (s : String) : Except DecodeError Payload :=
  match Payload.decoder? tag with
  | none => .error (.unknownTag tag)
  | some decode =>
    match decode s with
    | .ok payload => .ok payload
    | .error fault => .error (.payload tag fault)

/-- An envelope on its way to a subscription, still text. -/
structure Notification where
  subscription : SubscriptionId
  result : String
  deriving DecidableEq, Repr

def Notification.codec : Codec Notification :=
  .record "WireNotification" [Wire.uint64 "subscription", .required "result" .raw]
    (fun (subscription, result, ()) => ⟨subscription, result⟩) fun n => (n.subscription, n.result, ())

def Notification.decode (s : String) : Except DecodeError Notification :=
  match Notification.codec.decode s with
  | .ok n => .ok n
  | .error fault => .error (.notification fault)

end EventIntake.Event
