import EventIntake.Event.Envelope
import EventIntake.Rules.Channel

/-! Rules on balance changes, by owner, and the alerts they raise. -/
namespace EventIntake.Rules
open Event

/-- Conditions on a balance change; an unset one matches anything. -/
structure Rule where
  name : String
  changeType : Option ChangeType := none
  transactionModule : Option String := none
  coinType : Option String := none
  /-- The least absolute amount. -/
  minAmount : Option UInt64 := none
  deriving DecidableEq, Repr

/-- Whether a condition is unset or wants this very value. -/
def Rule.allows {α : Type} [DecidableEq α] (wanted : Option α) (a : α) : Bool :=
  match wanted with
  | none => true
  | some w => w = a

def Rule.applies (r : Rule) (change : CoinBalanceChange) : Bool :=
  allows r.changeType change.changeType && allows r.transactionModule change.transactionModule &&
    allows r.coinType change.coinType &&
    match r.minAmount with
    | none => true
    | some least => least.toNat ≤ change.amount.toInt.natAbs

inductive RuleError
  | missingOwner (txDigest : String) (eventSeq : Int64)
  | sinkFull (rule : String)
  | sinkClosed
  deriving DecidableEq, Repr

def RuleError.message : RuleError → String
  | missingOwner txDigest eventSeq =>
    "Balance change " ++ txDigest ++ "/" ++ toString eventSeq.toInt ++ " has no owner address"
  | sinkFull rule => "Alert channel full, dropped alert for rule " ++ rule
  | sinkClosed => "Alert channel closed"

/-- Rules by normalized owner, and the channel that their alerts go to. -/
structure Book where
  byOwner : List (String × List Rule) := []
  channel : Channel
  deriving DecidableEq, Repr

namespace Book

/-- The rules of an owner in the order they were added. -/
def rulesFor (owner : String) (b : Book) : List Rule :=
  (Sorted.find? (Address.normalize owner) b.byOwner).getD []

def add (owner : String) (r : Rule) (b : Book) : Book :=
  { b with byOwner := Sorted.insert (Address.normalize owner) (b.rulesFor owner ++ [r]) b.byOwner }

/-- Drops the rules of an owner and counts them. -/
def remove (owner : String) (b : Book) : Nat × Book :=
  ((b.rulesFor owner).length,
    { b with byOwner := Sorted.erase (Address.normalize owner) b.byOwner })

def alertOf (info : Meta) (owner : String) (change : CoinBalanceChange) (r : Rule) : Alert where
  rule := r.name
  owner := owner
  txDigest := info.txDigest
  eventSeq := info.eventSeq
  timestamp := info.timestamp
  changeType := change.changeType
  coinType := change.coinType
  amount := change.amount

/-- Offers alerts in order, up to the first that the channel does not take. -/
def offerAll : List Alert → Channel → Except RuleError Unit × Channel
  | [], c => (.ok (), c)
  | a :: rest, c =>
    match c.offer a with
    | (.sent, c) => offerAll rest c
    | (.full, c) => (.error (.sinkFull a.rule), c)
    | (.closed, c) => (.error .sinkClosed, c)

/-- Raises an alert for every rule of the owner that a balance change matches. Other events pass. -/
def observe (info : Meta) (p : Payload) (b : Book) : Except RuleError Unit × Book :=
  match p with
  | .coinBalanceChange change =>
    match change.owner.bind Owner.address with
    | none => (.error (.missingOwner info.txDigest info.eventSeq), b)
    | some owner =>
      let matching := (b.rulesFor owner).filter fun r => r.applies change
      let (result, channel) := offerAll (matching.map (alertOf info owner change)) b.channel
      (result, { b with channel := channel })
  | _ => (.ok (), b)

end Book

end EventIntake.Rules
