import EventIntake.Config.Yaml.Text
import EventIntake.Config.Yaml.Tree

/-! Reading anchors, aliases and tags. -/
namespace EventIntake.Config.Yaml

def isAnchorChar (c : Char) : Bool := !(isBlank c || c == '\n' || isFlowMark c)

/-- The type that a tag names after its first mark. Handles other than the common one have no meaning. -/
def tagOf? (word : List Char) : Option Tag :=
  match word with
  | '<' :: _ => some .text
  | '!' :: name => some
    (if name = "null".toList then .null
    else if name = "bool".toList then .bool
    else if name = "int".toList then .int
    else if name = "float".toList then .real
    else .text)
  | word => if word.contains '!' then none else some .text

/-- What may stand before a node. -/
structure Properties where
  anchor : Option String := none
  tag : Option Tag := none
  deriving DecidableEq, Repr

namespace Properties

def isEmpty (p : Properties) : Bool := p.anchor.isNone && p.tag.isNone

def apply (p : Properties) (t : Tree) : Tree :=
  let tagged := match p.tag with
    | some tag => Tree.tagged tag t
    | none => t
  match p.anchor with
  | some anchor => .anchored anchor tagged
  | none => tagged

/-- Reads at most `fuel` properties on a line, with blanks before them; each comes once. -/
def readFrom : Nat → Properties → Cursor → Option (Properties × Cursor)
  | 0, p, c => some (p, c)
  | fuel + 1, p, c =>
    let start := skipBlanks c.column c.rest
    match start.rest with
    | [] => some (p, c)
    | mark :: rest =>
      let word := rest.takeWhile isAnchorChar
      let after : Cursor := ⟨start.column + 1 + word.length, rest.dropWhile isAnchorChar⟩
      if mark = '&' then
        if word.isEmpty ∨ p.anchor.isSome then none
        else readFrom fuel { p with anchor := some (String.ofList word) } after
      else if mark = '!' then
        if p.tag.isSome then none
        else (tagOf? word).bind fun tag => readFrom fuel { p with tag := some tag } after
      else some (p, c)

/-- Reads the properties before a node. -/
def read (c : Cursor) : Option (Properties × Cursor) := readFrom 3 {} c

end Properties

/-- Reads an alias after its mark. -/
def readAlias? (c : Cursor) : Option (Tree × Cursor) :=
  let word := c.rest.takeWhile isAnchorChar
  if word.isEmpty then none
  else some (.aliased (String.ofList word), ⟨c.column + word.length, c.rest.dropWhile isAnchorChar⟩)

end EventIntake.Config.Yaml
