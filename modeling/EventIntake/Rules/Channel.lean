import EventIntake.Event.Payload

/-! A bounded channel of alerts. -/
namespace EventIntake.Rules
open Event

/-- A balance change that a rule matched. -/
structure Alert where
  rule : String
  owner : String
  txDigest : String
  eventSeq : Int64
  timestamp : UInt64
  changeType : ChangeType
  coinType : String
  amount : Int64
  deriving DecidableEq, Repr

/-- Alerts that wait to be read, oldest first, and whether somebody reads them. -/
structure Channel where
  capacity : Nat
  waiting : List Alert := []
  closed : Bool := false
  deriving DecidableEq, Repr

namespace Channel

/-- The answer to an offered alert. -/
inductive Offered
  | sent
  | full
  | closed
  deriving DecidableEq, Repr

/-- Puts an alert at the end without waiting for room. -/
def offer (a : Alert) (c : Channel) : Offered × Channel :=
  if c.closed then (.closed, c)
  else if c.waiting.length < c.capacity then (.sent, { c with waiting := c.waiting ++ [a] })
  else (.full, c)

/-- Takes the oldest alert. -/
def receive (c : Channel) : Option Alert × Channel :=
  match c.waiting with
  | [] => (none, c)
  | a :: rest => (some a, { c with waiting := rest })

/-- The reader takes no more alerts; what waits can still be read. -/
def shut (c : Channel) : Channel := { c with closed := true }

/-- The reader goes away, and what waits is lost. -/
def close (c : Channel) : Channel := { c with waiting := [], closed := true }

end Channel

end EventIntake.Rules
