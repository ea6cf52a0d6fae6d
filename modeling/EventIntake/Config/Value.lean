import EventIntake.Decimal.Digits
import EventIntake.Decimal.Notation
import EventIntake.Sorted

/-! Settings before they are given their types, and the merging of several sources. -/
namespace EventIntake.Config
open Decimal

/-- A setting. Tables are sorted by key, and keys that were merged are in lower case. -/
inductive Value
  | null
  | bool (b : Bool)
  | int (n : Int64)
  | real (x : Extended)
  | text (s : String)
  | list (items : List Value)
  | table (entries : List (String × Value))
  deriving Repr

namespace Value

/-- The entries of a table; anything else has none. -/
def entries : Value → List (String × Value)
  | table entries => entries
  | _ => []

def lowerKey (key : String) : String := String.ofList (key.toList.map Char.toLower)

mutual
/-- Sets an entry of a table. A table is merged into the present one entry by entry, so that one
without entries changes no setting; any other value replaces the present one. -/
def setEntry (key : String) (present : List (String × Value)) : Value → List (String × Value)
  | table incoming =>
    let key := lowerKey key
    let target := (Sorted.find? key present).getD (table [])
    Sorted.insert key (mergeInto target incoming) present
  | v => Sorted.insert (lowerKey key) v present

/-- Merges entries into a value as they are listed; it becomes a table with the first of them. -/
def mergeInto (target : Value) : List (String × Value) → Value
  | [] => target
  | (key, v) :: rest => mergeInto (table (setEntry key target.entries v)) rest
end

/-! ### Paths -/

/-- Where a key leads: to an entry, to an entry below, or to a place in a list below. -/
inductive Path
  | entry (key : String)
  | child (parent : Path) (key : String)
  | item (parent : Path) (index : Int)
  deriving DecidableEq, Repr

/-- Characters of a plain name. -/
def isNameChar (c : Char) : Bool :=
  c.isAlphanum || c == ' ' || c == '_' || c == '-'

/-- The index between brackets, blanks around it left out, and what follows. -/
def index? (cs : List Char) : Option (Int × List Char) :=
  let blank (c : Char) : Bool := c == ' ' || c == '\t'
  let inner := cs.dropWhile blank
  let (negative, inner) := match inner with
    | '-' :: rest => (true, rest)
    | rest => (false, rest)
  let ds := inner.takeWhile isDigit
  match (inner.dropWhile isDigit).dropWhile blank with
  | ']' :: rest =>
    if ds.isEmpty ∨ Int64.maxValue.toInt < natOf ds then none
    else some (signed negative (natOf ds), rest)
  | _ => none

/-- Reads at most `fuel` further steps of a path. -/
def pathFrom : Nat → Path → List Char → Option Path
  | _, p, [] => some p
  | 0, _, _ :: _ => none
  | fuel + 1, p, c :: cs =>
    if c = '.' then
      let name := cs.takeWhile isNameChar
      if name.isEmpty then none
      else pathFrom fuel (.child p (String.ofList name)) (cs.dropWhile isNameChar)
    else if c = '[' then do
      let (index, rest) ← index? cs
      pathFrom fuel (.item p index) rest
    else none

/-- The path that a key spells; a key that spells none is an entry of its own. -/
def pathOf (key : String) : Path :=
  let cs := key.toList
  let name := cs.takeWhile isNameChar
  if name.isEmpty then .entry key
  else (pathFrom cs.length (.entry (String.ofList name)) (cs.dropWhile isNameChar)).getD (.entry key)

/-- A place counted from the end if it is negative. -/
def place (index : Int) (length : Nat) : Nat :=
  if 0 ≤ index then index.toNat else length - index.natAbs

/-- Changes an item of a list, which grows by nulls to hold it. -/
def atItem (index : Int) (f : Value → Value) (v : Value) : Value :=
  let items := match v with
    | list items => items
    | _ => []
  let i := place index items.length
  let grown := items ++ List.replicate (i + 1 - items.length) null
  list (grown.set i (f (grown[i]?.getD null)))

/-- Changes the value at a path. -/
def modify (f : Value → Value) : Path → Value → Value
  | .entry key, v =>
    let key := lowerKey key
    table (Sorted.insert key (f ((Sorted.find? key v.entries).getD null)) v.entries)
  | .child parent key, v => modify (fun w =>
      let key := lowerKey key
      table (Sorted.insert key (f ((Sorted.find? key w.entries).getD null)) w.entries)) parent v
  | .item parent index, v => modify (atItem index f) parent v

/-- Sets the value at a path. -/
def set (path : Path) (new root : Value) : Value :=
  match path with
  | .entry key => table (setEntry key root.entries new)
  | .child parent key => modify (fun w => table (setEntry key w.entries new)) parent root
  | .item parent index => modify (atItem index fun _ => new) parent root

/-- Merges the entries of a source over the settings so far, as they are listed. -/
def overlay (source : List (String × Value)) (root : Value) : Value :=
  source.foldl (fun root e => set (pathOf e.1) e.2 root) root

/-! ### Other orders of entries -/

/-- The same settings with the entries of their tables in another order. A list is put in place as a whole, so tables in
it keep theirs. -/
inductive Reordered : Value → Value → Prop
  | refl (v : Value) : Reordered v v
  | trans {u v w : Value} (h : Reordered u v) (h' : Reordered v w) : Reordered u w
  | perm {es es' : List (String × Value)} (h : es.Perm es') : Reordered (table es) (table es')
  | inside {v w : Value} (key : String) (rest : List (String × Value)) (h : Reordered v w) :
    Reordered (table ((key, v) :: rest)) (table ((key, w) :: rest))

end Value

end EventIntake.Config
