import EventIntake.Text.Combining
import EventIntake.Text.Hex
import EventIntake.Text.Unprintable

/-! Text in double quotes as messages show it. -/
namespace EventIntake.Text.Quoted

/-- Quotes, backslashes and the common controls have short escapes; what would not be seen on its own
is given by its code point; the rest stands as it is. -/
def escape (c : Char) : String :=
  match c with
  | '"' => "\\\""
  | '\\' => "\\\\"
  | '\n' => "\\n"
  | '\r' => "\\r"
  | '\t' => "\\t"
  | c =>
    if c.toNat = 0 then "\\0"
    else if Combining.contains c || Unprintable.contains c then
      "\\u\x7b" ++ Hex.ofNat c.toNat ++ "\x7d"
    else c.toString

/-- The text with every character escaped, between double quotes. -/
def encode (s : String) : String :=
  "\"" ++ String.join (s.toList.map escape) ++ "\""

end EventIntake.Text.Quoted
