import EventIntake.Json.Lexical

/-! The items between the brackets of lists and objects, one at a time. -/
namespace EventIntake.Json

/-- Goes to the next element of a list; `false` at the closing bracket. -/
def nextItem (first : Bool) : Reader Bool := fun cs =>
  match skipBlank cs with
  | [] => .error (.ended .list)
  | c :: rest =>
    if c = ']' then .ok (false, c :: rest)
    else if first then .ok (true, c :: rest)
    else if c = ',' then
      match skipBlank rest with
      | [] => .error (.ended .value)
      | d :: rest => if d = ']' then .error .trailingComma else .ok (true, d :: rest)
    else .error .expectedListEnd

/-- Reads the closing bracket of a list. -/
def endList (cs : List Char) : Except Fault (List Char) :=
  match skipBlank cs with
  | [] => .error (.ended .list)
  | c :: rest =>
    if c = ']' then .ok rest
    else if c = ',' then
      .error (if (skipBlank rest).head? = some ']' then .trailingComma else .trailingText)
    else .error .trailingText

/-- Reads the next key of an object; `none` at the closing brace. -/
def nextKey (first : Bool) : Reader (Option String) := fun cs =>
  match skipBlank cs with
  | [] => .error (.ended .object)
  | c :: rest =>
    if c = '}' then .ok (none, c :: rest)
    else if first then key (c :: rest)
    else if c = ',' then
      match skipBlank rest with
      | [] => .error (.ended .value)
      | d :: rest => if d = '}' then .error .trailingComma else key (d :: rest)
    else .error .expectedObjectEnd
where
  key : Reader (Option String)
    | '"' :: rest => do
      let (name, rest) ← text rest
      .ok (some name, rest)
    | _ => .error .keyNotText

/-- Reads the closing brace of an object. -/
def endObject (cs : List Char) : Except Fault (List Char) :=
  match skipBlank cs with
  | [] => .error (.ended .object)
  | c :: rest =>
    if c = '}' then .ok rest
    else if c = ',' then .error .trailingComma
    else .error .trailingText

/-- Reads the colon between a key and its value. -/
def colon (cs : List Char) : Except Fault (List Char) :=
  match skipBlank cs with
  | [] => .error (.ended .object)
  | c :: rest => if c = ':' then .ok rest else .error .expectedColon

/-- Reads at most `fuel` elements into a state, up to the closing bracket. -/
def itemsUpTo {σ : Type} (step : σ → Reader σ) : Nat → Bool → σ → Reader σ
  | 0, _, _, _ => .error (.ended .list)
  | fuel + 1, first, s, cs => do
    let (more, cs) ← nextItem first cs
    if more then
      let (s, cs) ← step s cs
      itemsUpTo step fuel false s cs
    else .ok (s, cs)

/-- Reads the elements of a list after its opening bracket, and the closing one. -/
def items {σ : Type} (step : σ → Reader σ) (start : σ) : Reader σ := fun cs => do
  let (s, cs) ← itemsUpTo step (cs.length + 1) true start cs
  let cs ← endList cs
  .ok (s, cs)

/-- Reads at most `fuel` members into a state, up to the closing brace. The step takes the key and
starts before the colon. -/
def membersUpTo {σ : Type} (step : σ → String → Reader σ) : Nat → Bool → σ → Reader σ
  | 0, _, _, _ => .error (.ended .object)
  | fuel + 1, first, s, cs => do
    let (name, cs) ← nextKey first cs
    match name with
    | some name =>
      let (s, cs) ← step s name cs
      membersUpTo step fuel false s cs
    | none => .ok (s, cs)

/-- Elements in brackets, separated by commas. -/
def writeItems (items : List (List Char)) : List Char :=
  '[' :: [','].intercalate items ++ [']']

/-- Members in braces, separated by commas. -/
def writeMembers (members : List (String × List Char)) : List Char :=
  '{' :: [','].intercalate (members.map fun m => writeText m.1 ++ ':' :: m.2) ++ ['}']

end EventIntake.Json
