import EventIntake.Text.Hex

/-! Reading YAML text character by character: blanks and comments, quoted and plain scalars, and
scalars in blocks of lines. -/
namespace EventIntake.Config.Yaml

/-- What is left of a text, and the column where it starts. -/
structure Cursor where
  column : Nat
  rest : List Char
  deriving Repr

def isBlank (c : Char) : Bool := c == ' ' || c == '\t'

/-- Whether a blank, a line end or the end of the text comes next. -/
def gapNext : List Char → Bool
  | [] => true
  | c :: _ => isBlank c || c == '\n'

/-- The marks of flow collections. -/
def isFlowMark (c : Char) : Bool := c == ',' || c == '[' || c == ']' || c == '{' || c == '}'

/-- Passes blanks. -/
def skipBlanks : Nat → List Char → Cursor
  | column, [] => ⟨column, []⟩
  | column, c :: cs => if isBlank c then skipBlanks (column + 1) cs else ⟨column, c :: cs⟩

/-- Passes blanks, line ends and comments. A comment starts after a gap. -/
def skipFrom : (comment gap : Bool) → Nat → List Char → Cursor
  | _, _, column, [] => ⟨column, []⟩
  | comment, gap, column, c :: cs =>
    if c = '\n' then skipFrom false true 0 cs
    else if comment then skipFrom true true (column + 1) cs
    else if isBlank c then skipFrom false true (column + 1) cs
    else if c = '#' ∧ gap then skipFrom true true (column + 1) cs
    else ⟨column, c :: cs⟩

def skip (c : Cursor) : Cursor := skipFrom false (c.column == 0) c.column c.rest

/-- Whether nothing but blanks and a comment is left of the line. -/
def lineDone (c : Cursor) : Bool :=
  match (skipBlanks c.column c.rest).rest with
  | [] => true
  | d :: _ => d == '\n' || (d == '#' && (skipBlanks c.column c.rest).column != c.column)

/-- Whether a line of three dashes or dots starts here. -/
def atMarker (c : Cursor) : Bool :=
  c.column == 0 && match c.rest with
    | a :: b :: d :: rest => a == b && b == d && (a == '-' || a == '.') && gapNext rest
    | _ => false

/-- Counts line ends and passes them with the blanks around. -/
def lineEnds : Nat → Nat → List Char → Nat × Cursor
  | n, column, [] => (n, ⟨column, []⟩)
  | n, column, c :: cs =>
    if c = '\n' then lineEnds (n + 1) 0 cs
    else if isBlank c then lineEnds n (column + 1) cs
    else (n, ⟨column, c :: cs⟩)

/-- One line end between two lines is a space; of several one is left out. -/
def folded (lineEnds : Nat) : List Char :=
  if lineEnds = 1 then [' '] else List.replicate (lineEnds - 1) '\n'

/-! ### Quoted scalars -/

/-- The place inside quotes: between characters, in blanks (last first) that may end a line, after some
line ends, of which the first may be escaped, after a backslash, or within a code. -/
inductive Place
  | plain
  | blanks (cs : List Char)
  | ends (escaped : Bool) (n : Nat)
  | escape
  | code (left value : Nat)

namespace Place

def blank (c : Char) : Place → Place
  | blanks cs => blanks (c :: cs)
  | ends escaped n => ends escaped n
  | _ => blanks [c]

def lineEnd : Place → Place
  | ends escaped n => ends escaped (n + 1)
  | _ => ends false 1

/-- Adds what stands before the next character to the characters read, which are kept last first. -/
def settle (done : List Char) : Place → List Char
  | blanks cs => cs ++ done
  | ends false n => folded n ++ done
  | ends true n => List.replicate n '\n' ++ done
  | _ => done

end Place

/-- The character of an escape, or the number of digits of its code. -/
def escape? (c : Char) : Option (Char ⊕ Nat) :=
  match c with
  | '0' => some (.inl (Char.ofNat 0))
  | 'a' => some (.inl (Char.ofNat 7))
  | 'b' => some (.inl (Char.ofNat 8))
  | 't' | '\t' => some (.inl '\t')
  | 'n' => some (.inl '\n')
  | 'v' => some (.inl (Char.ofNat 11))
  | 'f' => some (.inl (Char.ofNat 12))
  | 'r' => some (.inl '\r')
  | 'e' => some (.inl (Char.ofNat 27))
  | ' ' => some (.inl ' ')
  | '"' => some (.inl '"')
  | '/' => some (.inl '/')
  | '\\' => some (.inl '\\')
  | 'N' => some (.inl (Char.ofNat 0x85))
  | '_' => some (.inl (Char.ofNat 0xA0))
  | 'L' => some (.inl (Char.ofNat 0x2028))
  | 'P' => some (.inl (Char.ofNat 0x2029))
  | 'x' => some (.inr 2)
  | 'u' => some (.inr 4)
  | 'U' => some (.inr 8)
  | _ => none

/-- Whether a character may come next inside quotes. A further line starts at the column `least - 1` or
after it, and with no document marker. -/
def Place.admits (least column : Nat) (cs : List Char) : Place → Bool
  | .ends _ _ => least ≤ column + 1 && !atMarker ⟨column, cs⟩
  | _ => true

/-- Reads a scalar after its opening mark; `done` holds the characters read, last first. Only double
quotes know escapes, and a single quote is written twice. -/
def quotedFrom (mark : Char) (least : Nat) :
    Place → List Char → Nat → List Char → Option (String × Cursor)
  | _, _, _, [] => none
  | .escape, done, column, c :: cs =>
    if c = '\n' then quotedFrom mark least (.ends true 0) done 0 cs
    else match escape? c with
      | some (.inl d) => quotedFrom mark least .plain (d :: done) (column + 1) cs
      | some (.inr digits) => quotedFrom mark least (.code digits 0) done (column + 1) cs
      | none => none
  | .code left value, done, column, c :: cs =>
    match Text.Hex.digit? c with
    | none => none
    | some d =>
      let n := 16 * value + d
      if 1 < left then quotedFrom mark least (.code (left - 1) n) done (column + 1) cs
      else if n.isValidChar then quotedFrom mark least .plain (Char.ofNat n :: done) (column + 1) cs
      else none
  | place, done, column, c :: cs =>
    if isBlank c then quotedFrom mark least (place.blank c) done (column + 1) cs
    else if c = '\n' then quotedFrom mark least place.lineEnd done 0 cs
    else if !place.admits least column (c :: cs) then none
    else
      let done := place.settle done
      if c = mark then
        match mark, cs with
        | '\'', '\'' :: cs => quotedFrom mark least .plain ('\'' :: done) (column + 2) cs
        | _, cs => some (String.ofList done.reverse, ⟨column + 1, cs⟩)
      else if c = '\\' ∧ mark = '"' then quotedFrom mark least .escape done (column + 1) cs
      else quotedFrom mark least .plain (c :: done) (column + 1) cs

/-- Reads a quoted scalar after its opening mark. -/
def quoted (mark : Char) (least : Nat) (c : Cursor) : Option (String × Cursor) :=
  quotedFrom mark least .plain [] c.column c.rest

/-! ### Plain scalars -/

/-- Whether a colon before `cs` ends a key. -/
def endsKey (flow : Bool) (cs : List Char) : Bool :=
  gapNext cs || (flow && cs.head?.any isFlowMark)

/-- Whether a plain scalar can start here. -/
def startsPlain (flow : Bool) : List Char → Bool
  | [] => false
  | c :: cs =>
    if c == '-' || c == '?' || c == ':' then !endsKey flow cs
    else !(isFlowMark c || isBlank c || "\n#&*!|>'\"%@`".toList.contains c)

/-- The plain text up to the end of its line, a comment, a colon that ends a key or, in a flow
collection, a mark of it. `previous` is the character before. -/
def plainLine (flow : Bool) : (previous : Char) → List Char → List Char × List Char
  | _, [] => ([], [])
  | previous, c :: cs =>
    if c = '\n' ∨ (c = '#' ∧ isBlank previous) ∨ (c = ':' ∧ endsKey flow cs) ∨
        (flow ∧ isFlowMark c) then ([], c :: cs)
    else
      let (text, rest) := plainLine flow c cs
      (c :: text, rest)

def trimEnd (cs : List Char) : List Char := (cs.reverse.dropWhile isBlank).reverse

/-- Reads a plain scalar over at most `fuel` lines. Further lines start at the column `least` or after
it. -/
def plainLines (flow : Bool) (least : Nat) : Nat → Cursor → List Char × Cursor
  | 0, c => ([], c)
  | fuel + 1, c =>
    let (line, rest) := plainLine flow 'x' c.rest
    let text := trimEnd line
    let stop : Cursor := ⟨c.column + text.length, c.rest.drop text.length⟩
    match rest with
    | '\n' :: _ =>
      let (n, next) := lineEnds 0 0 rest
      if next.rest.isEmpty ∨ next.column < least ∨ atMarker next ∨ next.rest.head? = some '#' then
        (text, stop)
      else
        let (more, after) := plainLines flow least fuel next
        if more.isEmpty then (text, stop) else (text ++ folded n ++ more, after)
    | _ => (text, stop)

def plain (flow : Bool) (least : Nat) (c : Cursor) : Option (String × Cursor) :=
  if startsPlain flow c.rest then
    let (text, rest) := plainLines flow least (c.rest.length + 1) c
    some (String.ofList text, rest)
  else none

/-! ### Scalars in blocks of lines -/

/-- What becomes of the line ends after the last line. -/
inductive Chomp
  | strip
  | clip
  | keep

/-- Reads the signs after the mark of a block: what to do at the end, and the extra indentation. -/
def blockHeader : Nat → Chomp → Option Nat → List Char → Chomp × Option Nat × List Char
  | 0, chomp, indent, cs => (chomp, indent, cs)
  | fuel + 1, chomp, indent, cs =>
    match cs with
    | '+' :: rest => blockHeader fuel .keep indent rest
    | '-' :: rest => blockHeader fuel .strip indent rest
    | c :: rest =>
      if '1' ≤ c ∧ c ≤ '9' then blockHeader fuel chomp (some (c.toNat - 48)) rest
      else (chomp, indent, cs)
    | [] => (chomp, indent, cs)

def isSpace (c : Char) : Bool := c == ' '

/-- The indentation of the first line that is not blank. -/
def firstIndent : Nat → List Char → Nat
  | 0, _ => 0
  | fuel + 1, cs =>
    let line := cs.takeWhile (· != '\n')
    let rest := (cs.dropWhile (· != '\n')).drop 1
    if line.all isSpace ∧ !rest.isEmpty then firstIndent fuel rest
    else (line.takeWhile isSpace).length

/-- The lines of a block without their indentation, and what follows them. -/
def blockLines (indent : Nat) : Nat → List Char → List (List Char) × List Char
  | 0, cs => ([], cs)
  | fuel + 1, cs =>
    let line := cs.takeWhile (· != '\n')
    if cs.isEmpty ∨ ((line.takeWhile isSpace).length < indent ∧ !line.all isSpace) then ([], cs)
    else
      let (lines, rest) := blockLines indent fuel ((cs.dropWhile (· != '\n')).drop 1)
      (line.drop indent :: lines, rest)

/-- Joins lines as paragraphs: a line end between two lines that are not indented further is a space.
`done` is kept last first, `blanks` counts empty lines, `flat` tells of the line before. -/
def foldLines :
    (done : List Char) → (blanks : Nat) → (flat : Option Bool) → List (List Char) → List Char
  | done, _, _, [] => done.reverse
  | done, blanks, flat, line :: rest =>
    if line.isEmpty then foldLines done (blanks + 1) flat rest
    else
      let level := !line.head?.any isBlank
      let gap := match flat with
        | none => List.replicate blanks '\n'
        | some before =>
          if before && level then folded (blanks + 1) else List.replicate (blanks + 1) '\n'
      foldLines (line.reverse ++ gap ++ done) 0 (some level) rest

/-- Reads a scalar in a block after its mark; its lines are indented to the column `least` at least. -/
def blockScalar (mark : Char) (least : Nat) (cs : List Char) : Option (String × Cursor) :=
  let (chomp, extra, after) := blockHeader 2 .clip none cs
  if !lineDone ⟨0, after⟩ then none
  else
    let start := (after.dropWhile (· != '\n')).drop 1
    let indent := match extra with
      | some n => least - 1 + n
      | none => max least (firstIndent (start.length + 1) start)
    let (lines, rest) := blockLines indent (start.length + 1) start
    let body := (lines.reverse.dropWhile List.isEmpty).reverse
    let text := if mark = '>' then foldLines [] 0 none body else ['\n'].intercalate body
    let tail := match chomp with
      | .strip => []
      | .clip => if body.isEmpty then [] else ['\n']
      | .keep => List.replicate (lines.length - body.length + if body.isEmpty then 0 else 1) '\n'
    some (String.ofList (text ++ tail), ⟨0, rest⟩)

end EventIntake.Config.Yaml
