import EventIntake.Config.Convert
import EventIntake.Config.Environment
import EventIntake.Config.Yaml.Document

/-! Settings from files and the environment. -/
namespace EventIntake.Config

/-- A file that was asked for. -/
inductive Source
  | missing
  | text (s : String)
  deriving DecidableEq, Repr

/-- Where settings may come from. -/
structure Sources where
  /-- The text of the file in the working directory. -/
  home : Option String := none
  /-- The file given by its path. -/
  given : Option Source := none
  /-- The file that a variable names. -/
  named : Option Source := none
  /-- The variables of the environment. Of those that set the very same key the last one stands. Otherwise this order does
  not matter, and there is none in which variables apply. -/
  env : List (String × String) := []
  deriving DecidableEq, Repr

inductive LoadError
  | unreadable
  | invalidThreshold (e : InvalidThreshold)
  deriving DecidableEq, Repr

namespace Sources

/-- The settings of one file. A file that was asked for must be there. -/
def entries? : Source → Option (List (String × Value))
  | .missing => none
  | .text s => Yaml.settings? s

/-- The files, from the weakest to the strongest. -/
def files (s : Sources) : List Source := (s.home.map Source.text).toList ++ s.given.toList ++ s.named.toList

/-- The settings of each source, from the weakest to the strongest; the environment comes last. -/
def layers? (s : Sources) : Option (List (List (String × Value))) := do
  some ((← s.files.mapM entries?) ++ [Environment.settings s.env])

/-- All sources merged, each over the ones before, with the entries of each as they are listed. -/
def merged? (s : Sources) : Option Value := do
  some ((← s.layers?).foldl (fun root layer => Value.overlay layer root) (.table []))

/-- The settings that merged sources give, with defaults for what none of them sets. -/
def settle (merged : Option Value) : Except LoadError Settings :=
  match merged.bind Settings.ofValue? with
  | none => .error .unreadable
  | some settings => settings.validate.mapError .invalidThreshold

/-- The settings that the sources give if the entries of each are applied as they are listed, and variables by their keys.
That is one of the outcomes in `Loads`. -/
def load (s : Sources) : Except LoadError Settings := settle s.merged?

/-! ### Every order of entries

Neither a file nor the environment keeps its entries in an order, so they may be applied in any. That shows where two
entries of one source lead to the same place, or one leads below the other. -/

/-- What settings may become under sources of the given entries, each source in some order and over the ones before. -/
inductive Merges : Value → List (List (String × Value)) → Value → Prop
  | done (root : Value) : Merges root [] root
  | next {root v : Value} {layer layer' : List (String × Value)} {rest : List (List (String × Value))}
    (hlayer : (Value.table layer).Reordered (.table layer')) (hrest : Merges (Value.overlay layer' root) rest v) :
    Merges root (layer :: rest) v

/-- The outcomes that loading can have, by the orders in which entries are applied. -/
inductive Loads (s : Sources) : Except LoadError Settings → Prop
  | unreadable (h : s.layers? = none) : Loads s (settle none)
  | merged {layers : List (List (String × Value))} {v : Value} (h : s.layers? = some layers)
    (hmerges : Merges (.table []) layers v) : Loads s (settle (some v))

end Sources

end EventIntake.Config
