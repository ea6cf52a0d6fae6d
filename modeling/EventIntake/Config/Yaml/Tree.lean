import EventIntake.Config.Yaml.Node

/-! Nodes as they are written, with anchors, aliases and tags, and the nodes that they stand for. -/
namespace EventIntake.Config.Yaml
open Decimal

/-- What a tag says of a plain scalar: one of the common types, or text. -/
inductive Tag
  | null
  | bool
  | int
  | real
  | text
  deriving DecidableEq, Repr

/-- A node as it is written. -/
inductive Tree
  | plain (s : String)
  | quoted (s : String)
  | list (items : List Tree)
  | table (entries : List (Tree × Tree))
  | tagged (tag : Tag) (t : Tree)
  | anchored (anchor : String) (t : Tree)
  | aliased (anchor : String)
  deriving Repr

/-- The scalar that plain text with a tag spells; null if it is none of the type. -/
def Scalar.ofTagged (tag : Tag) (s : String) : Scalar :=
  match tag with
  | .null => .null
  | .bool => if s = "true" then .bool true else if s = "false" then .bool false else .null
  | .int => ((int64? 10 decimalDigit? s.toList).map Scalar.int).getD .null
  | .real => if isReal s then .real s else .null
  | .text => .text s

namespace Tree

/-- The nodes that anchors name, the latest first. -/
abbrev Names := List (String × Node)

/-- An alias needs an anchor before it. -/
def named? (names : Names) (anchor : String) : Option Node :=
  (names.find? fun e => e.1 == anchor).map Prod.snd

/-- Adds an entry at the end. A scalar key must not come again; an entry with another key counts for
nothing. -/
def addEntry? (entries : List (Scalar × Node)) (key value : Node) : Option (List (Scalar × Node)) :=
  match key with
  | .scalar k => if entries.any fun e => e.1 = k then none else some (entries ++ [(k, value)])
  | _ => some entries

mutual
/-- The node that a tree stands for, and the names after it. Inside its own anchor an alias is null. -/
def node? (names : Names) : Tree → Option (Node × Names)
  | plain s => some (.scalar (.ofPlain s), names)
  | quoted s => some (.scalar (.text s), names)
  | list items => do
    let (items, names) ← nodes? names items
    some (.list items, names)
  | table entries => do
    let (entries, names) ← entries? names [] entries
    some (.table entries, names)
  | tagged tag (plain s) => some (.scalar (.ofTagged tag s), names)
  | tagged _ t => node? names t
  | anchored anchor t => do
    let (n, names) ← node? ((anchor, .scalar .null) :: names) t
    some (n, (anchor, n) :: names)
  | aliased anchor => (named? names anchor).map fun n => (n, names)

def nodes? (names : Names) : List Tree → Option (List Node × Names)
  | [] => some ([], names)
  | t :: rest => do
    let (n, names) ← node? names t
    let (ns, names) ← nodes? names rest
    some (n :: ns, names)

def entries? (names : Names) (done : List (Scalar × Node)) :
    List (Tree × Tree) → Option (List (Scalar × Node) × Names)
  | [] => some (done, names)
  | (k, v) :: rest => do
    let (k, names) ← node? names k
    let (v, names) ← node? names v
    entries? names (← addEntry? done k v) rest
end

end Tree

end EventIntake.Config.Yaml
