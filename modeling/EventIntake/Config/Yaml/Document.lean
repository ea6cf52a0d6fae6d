import EventIntake.Config.Yaml.Property

/-! YAML documents. Collections are nested by indentation or in brackets. -/
namespace EventIntake.Config.Yaml

/-- Whether a mark with a gap after it starts here. -/
def atMark (mark : Char) (c : Cursor) : Bool :=
  match c.rest with
  | d :: rest => d == mark && gapNext rest
  | [] => false

/-- Whether an item of a list starts here. -/
def atItem (c : Cursor) : Bool := atMark '-' c

/-- The place after one character. -/
def Cursor.next (c : Cursor) : Cursor := ⟨c.column + 1, c.rest.drop 1⟩

/-- Whether no line ends between two places. -/
def sameLine (start stop : Cursor) : Bool :=
  (start.rest.take (start.rest.length - stop.rest.length)).all (· != '\n')

/-- Reads a scalar or an alias that may be a key. Nothing at all is one, too. -/
def keyScalar? (c : Cursor) : Option (Tree × Cursor) :=
  match c.rest with
  | [] => none
  | mark :: _ =>
    if mark = '"' ∨ mark = '\'' then do
      let (s, d) ← quoted mark 0 c.next
      if sameLine c d then some (.quoted s, d) else none
    else if mark = '*' then readAlias? c.next
    else if atMark ':' c then some (.plain "", c)
    else if startsPlain false c.rest then
      let (line, rest) := plainLine false 'x' c.rest
      some (.plain (String.ofList (trimEnd line)), ⟨c.column + line.length, rest⟩)
    else none

/-- Reads a key and its colon on one line. -/
def key? (c : Cursor) : Option (Tree × Cursor) := do
  let (p, d) ← Properties.read c
  let (t, d) ← keyScalar? (skipBlanks d.column d.rest)
  let colon := skipBlanks d.column d.rest
  if atMark ':' colon then some (p.apply t, colon.next) else none

/-! ### Collections in brackets -/

/-- Passes blanks, line ends and comments inside brackets, whose lines must not start before the column
`least - 1`. -/
def flowSkip? (least : Nat) (c : Cursor) : Option Cursor :=
  let d := skip c
  if d.rest.isEmpty ∨ least ≤ d.column + 1 then some d else none

/-- Passes the colon between the key and the value of an entry in brackets. It may touch the value
after a quoted key. -/
def flowColon? (quotedKey : Bool) (c : Cursor) : Option Cursor :=
  match c.rest with
  | ':' :: rest => if quotedKey || endsKey true rest then some c.next else none
  | _ => none

/-- Whether the key from `c` to `after` is quoted and its colon follows at once. -/
def quotedKey (c after : Cursor) : Bool :=
  (c.rest.head?.any fun d => d == '"' || d == '\'') && after.rest.head? == some ':'

/-- Whether a node in brackets is left out. -/
def flowMissing (c : Cursor) : Bool :=
  c.rest.head?.any fun d => d == ',' || d == ']' || d == '}'

/-- Passes the mark of an explicit key. -/
def passMark? (least : Nat) (c : Cursor) : Option Cursor :=
  if atMark '?' c then flowSkip? least c.next else some c

mutual

/-- A scalar on the line, an alias or a collection in brackets. -/
def inline (fuel : Nat) (flow : Bool) (least : Nat) (c : Cursor) : Option (Tree × Cursor) :=
  match fuel with
  | 0 => none
  | fuel + 1 =>
    match c.rest with
    | [] => none
    | d :: _ =>
      if d = '"' ∨ d = '\'' then
        (quoted d least c.next).map fun (s, after) => (.quoted s, after)
      else if d = '*' then readAlias? c.next
      else if d = '[' then flowItems fuel least [] c.next
      else if d = '{' then flowEntries fuel least [] c.next
      else (plain flow (if flow then 0 else least) c).map fun (s, after) => (.plain s, after)

/-- A node in brackets with what stands before it. A key may be left out. -/
def flowNode (fuel : Nat) (least : Nat) (c : Cursor) : Option (Tree × Cursor) :=
  match fuel with
  | 0 => none
  | fuel + 1 => do
    let (p, d) ← Properties.read c
    let start ← flowSkip? least d
    if (flowColon? false start).isSome ∨ (!p.isEmpty ∧ flowMissing start) then
      some (p.apply (.plain ""), start)
    else
      let (t, after) ← inline fuel true least start
      some (p.apply t, after)

/-- The items up to a closing bracket; an entry stands for a table of its own. -/
def flowItems (fuel : Nat) (least : Nat) (done : List Tree) (c : Cursor) : Option (Tree × Cursor) :=
  match fuel with
  | 0 => none
  | fuel + 1 => do
    let c ← flowSkip? least c
    match c.rest with
    | ']' :: _ => some (.list done.reverse, c.next)
    | _ =>
      let c ← passMark? least c
      let (k, after) ← flowNode fuel least c
      let (t, after) ← match flowColon? (quotedKey c after) (← flowSkip? least after) with
        | none => some (k, after)
        | some colon =>
          (flowValue fuel least colon).map fun (v, after) => (.table [(k, v)], after)
      let stop ← flowSkip? least after
      match stop.rest with
      | ',' :: _ => flowItems fuel least (t :: done) stop.next
      | ']' :: _ => some (.list (t :: done).reverse, stop.next)
      | _ => none

/-- The entries up to a closing brace; a key alone has a null value. -/
def flowEntries (fuel : Nat) (least : Nat) (done : List (Tree × Tree)) (c : Cursor) :
    Option (Tree × Cursor) :=
  match fuel with
  | 0 => none
  | fuel + 1 => do
    let c ← flowSkip? least c
    match c.rest with
    | '}' :: _ => some (.table done.reverse, c.next)
    | _ =>
      let c ← passMark? least c
      let (k, after) ← flowNode fuel least c
      let (v, after) ← match flowColon? (quotedKey c after) (← flowSkip? least after) with
        | none => some (.plain "", after)
        | some colon => flowValue fuel least colon
      let stop ← flowSkip? least after
      match stop.rest with
      | ',' :: _ => flowEntries fuel least ((k, v) :: done) stop.next
      | '}' :: _ => some (.table ((k, v) :: done).reverse, stop.next)
      | _ => none

/-- The value after the colon of an entry in brackets. -/
def flowValue (fuel : Nat) (least : Nat) (c : Cursor) : Option (Tree × Cursor) :=
  match fuel with
  | 0 => none
  | fuel + 1 => do
    let c ← flowSkip? least c
    if flowMissing c then some (.plain "", c) else flowNode fuel least c

end

/-! ### Collections by indentation -/

/-- A value that starts on the line of its key or marker and ends its last line. -/
def onLine (least : Nat) (c : Cursor) : Option (Tree × Cursor) :=
  match c.rest with
  | '|' :: rest => (blockScalar '|' least rest).map fun (s, d) => (.quoted s, d)
  | '>' :: rest => (blockScalar '>' least rest).map fun (s, d) => (.quoted s, d)
  | _ => do
    let (t, after) ← inline (4 * c.rest.length + 8) false least c
    if lineDone after then some (t, after) else none

mutual

/-- A node that starts at the column `least` or after it, or a list at the column `items` or after it;
null if none does. -/
def block (fuel : Nat) (least items : Nat) (c : Cursor) : Option (Tree × Cursor) :=
  match fuel with
  | 0 => none
  | fuel + 1 =>
    let start := skip c
    if start.rest.isEmpty ∨ atMarker start then some (.plain "", start)
    else if atItem start ∧ items ≤ start.column then blockItems fuel start.column [] start
    else if start.column < least then some (.plain "", start)
    else if atMark '?' start ∨ (key? start).isSome then blockEntries fuel start.column [] start
    else value fuel least items start
termination_by structural fuel

/-- A node that is no table and starts here, what stands before it included. Below a line with nothing
else any node may follow. -/
def value (fuel : Nat) (least items : Nat) (c : Cursor) : Option (Tree × Cursor) :=
  match fuel with
  | 0 => none
  | fuel + 1 => do
    let (p, d) ← Properties.read c
    let (t, after) ←
      if lineDone d then block fuel least items d
      else onLine least (skipBlanks d.column d.rest)
    some (p.apply t, after)
termination_by structural fuel

/-- The items that start at one column. -/
def blockItems (fuel : Nat) (column : Nat) (done : List Tree) (c : Cursor) : Option (Tree × Cursor) :=
  match fuel with
  | 0 => none
  | fuel + 1 => do
    let (t, after) ← block fuel (column + 1) (column + 1) c.next
    let next := skip after
    if next.rest.isEmpty ∨ atMarker next ∨ next.column < column then
      some (.list (t :: done).reverse, next)
    else if next.column ≠ column then none
    else if atItem next then blockItems fuel column (t :: done) next
    else some (.list (t :: done).reverse, next)
termination_by structural fuel

/-- One entry whose key starts at the column. The value of a key after a mark follows a colon at the
same column, or is left out. -/
def blockEntry (fuel : Nat) (column : Nat) (c : Cursor) : Option ((Tree × Tree) × Cursor) :=
  match fuel with
  | 0 => none
  | fuel + 1 =>
    if atMark '?' c then do
      let (k, after) ← block fuel (column + 1) column c.next
      let colon := skip after
      if colon.column = column ∧ atMark ':' colon then
        let (v, after) ← block fuel (column + 1) column colon.next
        some ((k, v), after)
      else some ((k, .plain ""), after)
    else do
      let (k, afterKey) ← key? c
      let (v, after) ← value fuel (column + 1) column afterKey
      some ((k, v), after)
termination_by structural fuel

/-- The entries whose keys start at one column. -/
def blockEntries (fuel : Nat) (column : Nat) (done : List (Tree × Tree)) (c : Cursor) :
    Option (Tree × Cursor) :=
  match fuel with
  | 0 => none
  | fuel + 1 => do
    let (entry, after) ← blockEntry fuel column c
    let next := skip after
    if next.rest.isEmpty ∨ atMarker next ∨ next.column < column then
      some (.table (entry :: done).reverse, next)
    else if next.column ≠ column then none
    else blockEntries fuel column (entry :: done) next
termination_by structural fuel

end

/-! ### Documents -/

/-- What may come next: a document, one that a marker starts because a directive came before, or none
but after a marker. -/
inductive Stage
  | fresh
  | directed
  | ended
  deriving DecidableEq, Repr

/-- Reads at most `fuel` documents. -/
def documentsFrom : Nat → Stage → Cursor → Option (List Tree)
  | 0, _, _ => none
  | fuel + 1, stage, c =>
    let c := skip c
    let size := 4 * c.rest.length + 8
    let andMore (r : Option (Tree × Cursor)) : Option (List Tree) := do
      let (t, after) ← r
      let next := skip after
      if next.rest.isEmpty ∨ atMarker next then
        some (t :: (← documentsFrom fuel .ended next))
      else none
    match c.rest with
    | [] => if stage = .directed then none else some []
    | d :: rest =>
      if atMarker c then
        let after : Cursor := ⟨3, c.rest.drop 3⟩
        if d = '.' then
          if stage ≠ .directed ∧ lineDone after then documentsFrom fuel .fresh after else none
        else andMore (value size 0 0 after)
      else if d = '%' ∧ c.column = 0 ∧ stage ≠ .ended then
        documentsFrom fuel .directed ⟨0, rest.dropWhile (· != '\n')⟩
      else if stage = .fresh then andMore (block size 0 0 c)
      else none

/-- Every line end as one character. -/
def normalized : List Char → List Char
  | [] => []
  | '\r' :: '\n' :: rest => '\n' :: normalized rest
  | '\r' :: rest => '\n' :: normalized rest
  | c :: rest => c :: normalized rest

/-- The documents of a text, without a byte order mark and up to the first null character. -/
def documents (s : String) : Option (List Tree) :=
  let cs := match s.toList with
    | '\uFEFF' :: rest => rest
    | cs => cs
  documentsFrom (cs.length + 1) .fresh ⟨0, normalized (cs.takeWhile fun c => c.toNat != 0)⟩

/-- The settings in a text: one document that is a table. A text without documents has none. -/
def settings? (s : String) : Option (List (String × Value)) := do
  match ← documents s with
  | [] => some []
  | [t] =>
    match ← (← t.node? []).1.value? with
    | .table entries => some entries
    | _ => none
  | _ => none

end EventIntake.Config.Yaml
