import EventIntake.Json.Lexical

/-! Any JSON value, checked for its grammar alone and kept as text. Nesting, number range and the
pairing of surrogates are free. -/
namespace EventIntake.Json.Raw
open Decimal

/-- What may come next. -/
inductive Phase
  | value
  | firstItem
  | firstKey
  | key
  | colon
  | separator
  | word (left : List Char)
  | inText (isKey : Bool)
  | escaped (isKey : Bool)
  | hex (isKey : Bool) (left : Nat)
  | sign
  | zero
  | whole
  | point
  | fraction
  | exponent
  | exponentSign
  | power
  deriving DecidableEq, Repr

/-- An open bracket. -/
inductive Frame
  | list
  | object
  deriving DecidableEq, Repr

/-- The outcome of one character: more is to come, the value ends with the character, or it ended
before it. -/
inductive Step
  | more (phase : Phase) (frames : List Frame)
  | last
  | before
  deriving DecidableEq, Repr

/-- A value inside the given brackets is complete. -/
def close : List Frame → Step
  | [] => .last
  | frames => .more .separator frames

/-- The first character of a value. -/
def startValue (frames : List Frame) (c : Char) : Except Fault Step :=
  if c = 'n' then .ok (.more (.word ['u', 'l', 'l']) frames)
  else if c = 't' then .ok (.more (.word ['r', 'u', 'e']) frames)
  else if c = 'f' then .ok (.more (.word ['a', 'l', 's', 'e']) frames)
  else if c = '"' then .ok (.more (.inText false) frames)
  else if c = '-' then .ok (.more .sign frames)
  else if c = '0' then .ok (.more .zero frames)
  else if isDigit c then .ok (.more .whole frames)
  else if c = '[' then .ok (.more .firstItem (.list :: frames))
  else if c = '{' then .ok (.more .firstKey (.object :: frames))
  else .error .expectedValue

/-- A comma or the closing bracket. -/
def separate (frames : List Frame) (c : Char) : Except Fault Step :=
  match frames with
  | [] => .ok .before
  | .list :: outer =>
    if isBlank c then .ok (.more .separator frames)
    else if c = ',' then .ok (.more .value frames)
    else if c = ']' then .ok (close outer)
    else .error .expectedListEnd
  | .object :: outer =>
    if isBlank c then .ok (.more .separator frames)
    else if c = ',' then .ok (.more .key frames)
    else if c = '}' then .ok (close outer)
    else .error .expectedObjectEnd

/-- Where a text leads once it is closed. -/
def afterText (isKey : Bool) (frames : List Frame) : Step :=
  if isKey then .more .colon frames else close frames

/-- Takes one character; `rest` is what follows it. -/
def advance (phase : Phase) (frames : List Frame) (c : Char) (rest : List Char) :
    Except Fault Step :=
  match phase with
  | .value => if isBlank c then .ok (.more .value frames) else startValue frames c
  | .firstItem =>
    if isBlank c then .ok (.more .firstItem frames)
    else if c = ']' then .ok (close frames.tail)
    else startValue frames c
  | .firstKey =>
    if isBlank c then .ok (.more .firstKey frames)
    else if c = '}' then .ok (close frames.tail)
    else if c = '"' then .ok (.more (.inText true) frames)
    else .error .keyNotText
  | .key =>
    if isBlank c then .ok (.more .key frames)
    else if c = '"' then .ok (.more (.inText true) frames)
    else .error .keyNotText
  | .colon =>
    if isBlank c then .ok (.more .colon frames)
    else if c = ':' then .ok (.more .value frames)
    else .error .expectedColon
  | .separator => separate frames c
  | .word [] => separate frames c
  | .word (w :: ws) =>
    if c ≠ w then .error .expectedWord
    else if ws.isEmpty then .ok (close frames)
    else .ok (.more (.word ws) frames)
  | .inText isKey =>
    if c = '"' then .ok (afterText isKey frames)
    else if c = '\\' then .ok (.more (.escaped isKey) frames)
    else if c.toNat < 0x20 then .error .controlCharacter
    else .ok (.more (.inText isKey) frames)
  | .escaped isKey =>
    if c = 'u' then
      if fourBytes rest then .ok (.more (.hex isKey 4) frames) else .error (.ended .text)
    else if (shortEscape? c).isSome then .ok (.more (.inText isKey) frames)
    else .error .badEscape
  | .hex isKey left =>
    if (Text.Hex.digit? c).isNone then .error .badEscape
    else if 1 < left then .ok (.more (.hex isKey (left - 1)) frames)
    else .ok (.more (.inText isKey) frames)
  | .sign =>
    if c = '0' then .ok (.more .zero frames)
    else if isDigit c then .ok (.more .whole frames)
    else .error .badNumber
  | .zero =>
    if c = '.' then .ok (.more .point frames)
    else if c = 'e' ∨ c = 'E' then .ok (.more .exponent frames)
    else if isDigit c then .error .badNumber
    else separate frames c
  | .whole =>
    if isDigit c then .ok (.more .whole frames)
    else if c = '.' then .ok (.more .point frames)
    else if c = 'e' ∨ c = 'E' then .ok (.more .exponent frames)
    else separate frames c
  | .point => if isDigit c then .ok (.more .fraction frames) else .error .badNumber
  | .fraction =>
    if isDigit c then .ok (.more .fraction frames)
    else if c = 'e' ∨ c = 'E' then .ok (.more .exponent frames)
    else separate frames c
  | .exponent =>
    if c = '+' ∨ c = '-' then .ok (.more .exponentSign frames)
    else if isDigit c then .ok (.more .power frames)
    else .error .badNumber
  | .exponentSign => if isDigit c then .ok (.more .power frames) else .error .badNumber
  | .power => if isDigit c then .ok (.more .power frames) else separate frames c

/-- The end of the text. A number may end there, if it stands alone and is complete. -/
def stop (phase : Phase) (frames : List Frame) : Except Fault Unit :=
  match phase with
  | .zero | .whole | .fraction | .power => if frames.isEmpty then .ok () else .error (.ended .value)
  | .sign | .point | .exponent | .exponentSign => .error .badNumber
  | .inText _ | .escaped _ | .hex _ _ => .error (.ended .text)
  | _ => .error (.ended .value)

/-- Passes over one value and gives what follows it. -/
def scan : Phase → List Frame → List Char → Except Fault (List Char)
  | phase, frames, [] => (fun _ => []) <$> stop phase frames
  | phase, frames, c :: cs =>
    match advance phase frames c cs with
    | .error fault => .error fault
    | .ok (.more phase frames) => scan phase frames cs
    | .ok .last => .ok cs
    | .ok .before => .ok (c :: cs)

/-- Passes over one value, blanks before it included. -/
def skip (cs : List Char) : Except Fault (List Char) := scan .value [] cs

/-- The text of one value, without the blanks before it. -/
def read : Reader String := fun cs => do
  let cs := skipBlank cs
  let rest ← skip cs
  .ok (String.ofList (cs.take (cs.length - rest.length)), rest)

/-- The text of a document that holds one value, without the blanks around it. -/
def document (s : String) : Except Fault String := finish String read s.toList

end EventIntake.Json.Raw
