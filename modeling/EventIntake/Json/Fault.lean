/-! Why a JSON text is refused. -/
namespace EventIntake.Json

/-- What was being read when the text ended. -/
inductive Construct
  | list
  | object
  | text
  | value
  deriving DecidableEq, Repr

/-- The first problem of a text in reading order. -/
inductive Fault
  | ended (inside : Construct)
  | expectedValue
  | expectedWord
  | expectedColon
  | expectedListEnd
  | expectedObjectEnd
  | keyNotText
  | trailingComma
  | trailingText
  | badNumber
  | numberRange
  | badEscape
  | controlCharacter
  | loneSurrogate
  | openSurrogate
  | tooDeep
  /-- Well formed so far, but not of the wanted shape. -/
  | rejected (message : String)
  deriving DecidableEq, Repr

def Construct.message : Construct → String
  | .list => "a list"
  | .object => "an object"
  | .text => "a string"
  | .value => "a value"

namespace Fault

/-- The full wording. -/
def message : Fault → String
  | .ended inside => "EOF while parsing " ++ inside.message
  | .expectedValue => "expected value"
  | .expectedWord => "expected ident"
  | .expectedColon => "expected `:`"
  | .expectedListEnd => "expected `,` or `]`"
  | .expectedObjectEnd => "expected `,` or `\x7d`"
  | .keyNotText => "key must be a string"
  | .trailingComma => "trailing comma"
  | .trailingText => "trailing characters"
  | .badNumber => "invalid number"
  | .numberRange => "number out of range"
  | .badEscape => "invalid escape"
  | .controlCharacter => "control character (\\u0000-\\u001F) found while parsing a string"
  | .loneSurrogate => "lone leading surrogate in hex escape"
  | .openSurrogate => "unexpected end of hex escape"
  | .tooDeep => "recursion limit exceeded"
  | .rejected message => message

/-- One word for a text that ended early, one for any other malformed text; a wrong shape keeps its
wording. -/
def summary : Fault → String
  | .ended _ => "<eof>"
  | .rejected message => message
  | _ => "<syntax>"

end Fault

/-- Reads a value off the front of a text and gives the rest. -/
abbrev Reader (α : Type) := List Char → Except Fault (α × List Char)

end EventIntake.Json
