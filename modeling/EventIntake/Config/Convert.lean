import EventIntake.Config.Settings
import EventIntake.Config.Value
import EventIntake.Decimal.Reading

/-! Giving settings their types. -/
namespace EventIntake.Config
open Decimal Event

namespace Value

/-- The small form of a word. The Kelvin sign is the one letter outside ASCII whose small form is in
it. -/
def lowerWord (s : String) : List Char :=
  s.toList.map fun c => if c.toNat = 0x212A then 'k' else c.toLower

def yesWords : List (List Char) := ["true".toList, "on".toList, "yes".toList]
def noWords : List (List Char) := ["false".toList, "off".toList, "no".toList]

/-- Digits, after a plus sign if any. -/
def natural? (cs : List Char) : Option Nat :=
  match cs with
  | '-' :: _ => none
  | cs => Int.toNat <$> wholeOf? 10 decimalDigit? cs

/-- A real number rounded to a count, a half away from zero; counts out of range are capped. -/
def countOfReal : Extended → Nat
  | .finite x => if x.negative then 0 else min x.roundAway (UInt64.size - 1)
  | .infinite negative => if negative then 0 else UInt64.size - 1
  | .nan => 0

/-- A count up to `greatest`. -/
def count? (greatest : Nat) (v : Value) : Option Nat := do
  let n ← match v with
    | .bool b => some b.toNat
    | .int n => if 0 ≤ n.toInt then some n.toInt.toNat else none
    | .real x => some (countOfReal x)
    | .text s =>
      if yesWords.contains (lowerWord s) then some 1
      else if noWords.contains (lowerWord s) then some 0
      else natural? s.toList
    | _ => none
  if n ≤ greatest then some n else none

def uint64? (v : Value) : Option UInt64 := UInt64.ofNat <$> v.count? (UInt64.size - 1)
def uint32? (v : Value) : Option UInt32 := UInt32.ofNat <$> v.count? (UInt32.size - 1)

def bool? : Value → Option Bool
  | .bool b => some b
  | .int n => some (n != 0)
  | .real (.finite x) => some !x.isZero
  | .real _ => some true
  | .text s =>
    let word := lowerWord s
    if word = ['1'] ∨ yesWords.contains word then some true
    else if word = ['0'] ∨ noWords.contains word then some false
    else none
  | _ => none

def text? : Value → Option String
  | .text s => some s
  | .bool b => some (if b then "true" else "false")
  | .int n => some (toString n.toInt)
  | .real x => some x.plainText
  | _ => none

/-- A named case in any letter case: its name, or a table with the name as its one key. -/
def case? {α : Type} (cases : List (String × α)) (v : Value) : Option α :=
  let named (name : String) : Option α :=
    (cases.find? fun c => lowerWord c.1 == lowerWord name).map Prod.snd
  match v with
  | .text name => named name
  | .table [(name, _)] => named name
  | _ => none

def list? {α : Type} (read : Value → Option α) : Value → Option (List α)
  | .list items => items.mapM read
  | _ => none

/-- The parts of a structure by key, or by place in a list. -/
def parts? : Value → Option (Nat → String → Option Value)
  | .table entries => some fun _ key => Sorted.find? key entries
  | .list items => some fun index _ => items[index]?
  | _ => none

/-- A part, or what stands for an absent one. -/
def part {α : Type} (read : Value → Option α) (absent : α) : Option Value → Option α
  | none => some absent
  | some v => read v

end Value

def Ingest.ofValue? (v : Value) : Option Ingest := do
  let pick ← v.parts?
  some {
    eventTypes := ← Value.part (Value.list? (Value.case? Category.byName)) ({} : Ingest).eventTypes
      (pick 0 "event_types")
    flushThreshold := ← Value.part Value.uint64? ({} : Ingest).flushThreshold
      (pick 1 "flush_threshold")
    subscribeRetries := ← Value.part Value.uint64? ({} : Ingest).subscribeRetries
      (pick 2 "subscribe_retries") }

def Sqlite.ofValue? (v : Value) : Option Sqlite := do
  let pick ← v.parts?
  some { path := ← Value.part Value.text? ({} : Sqlite).path (pick 0 "path") }

def Postgres.ofValue? (v : Value) : Option Postgres := do
  let pick ← v.parts?
  some {
    uri := ← Value.part Value.text? ({} : Postgres).uri (pick 0 "uri")
    poolSize := ← Value.part Value.uint32? ({} : Postgres).poolSize (pick 1 "pool_size") }

def Storage.ofValue? (v : Value) : Option Storage := do
  let pick ← v.parts?
  some {
    backend := ← Value.part (Value.case? backends) ({} : Storage).backend (pick 0 "type")
    sqlite := ← Value.part Sqlite.ofValue? {} (pick 1 "sqlite")
    postgres := ← Value.part Postgres.ofValue? {} (pick 2 "postgres")
    upsert := ← Value.part Value.bool? ({} : Storage).upsert (pick 3 "upsert") }

def Settings.ofValue? (v : Value) : Option Settings := do
  let pick ← v.parts?
  some {
    ingest := ← Value.part Ingest.ofValue? {} (pick 0 "ingest")
    storage := ← Value.part Storage.ofValue? {} (pick 1 "storage") }

end EventIntake.Config
