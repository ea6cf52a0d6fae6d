import EventIntake.Decimal.Digits
import EventIntake.Sql.Fault
import EventIntake.Sql.Insert

/-! How a database reads the text of an insertion: character by character into tokens, and those into
the parts of the statement. -/
namespace EventIntake.Sql.Reading
open Decimal

/-! ### Tokens -/

/-- The quotes around texts and those around names. -/
inductive Quote
  | single
  | double
  deriving DecidableEq, Repr

def Quote.char : Quote → Char
  | .single => '\''
  | .double => '"'

inductive Token
  | word (w : String)
  | quoted (q : Quote) (s : String)
  | symbol (c : Char)
  deriving DecidableEq, Repr

/-- What has been read of a token. -/
inductive Phase
  | between
  | word (read : List Char)
  | quoted (q : Quote) (read body : List Char)
  /-- After a quote, which ends the token unless it comes twice. -/
  | closing (q : Quote) (read body : List Char)
  /-- After a NUL between tokens, which ends the text. -/
  | ended
  deriving DecidableEq, Repr

structure Lexer where
  done : List Token := []
  phase : Phase := .between
  deriving DecidableEq, Repr

def isBlank (c : Char) : Bool := c == ' ' || c == '\t' || c == '\n' || c == '\x0c' || c == '\r'

/-- A character of keywords, numbers and bare names. -/
def isWord (c : Char) : Bool := c.isAlphanum || c == '_' || c == '$' || 0x80 ≤ c.toNat

namespace Lexer

/-- A character that belongs to no token before it. -/
def start (done : List Token) (c : Char) : Lexer :=
  if c = '\x00' then ⟨done, .ended⟩
  else if isBlank c then ⟨done, .between⟩
  else if c = Quote.single.char then ⟨done, .quoted .single [c] []⟩
  else if c = Quote.double.char then ⟨done, .quoted .double [c] []⟩
  else if isWord c then ⟨done, .word [c]⟩
  else ⟨done ++ [.symbol c], .between⟩

/-- The token that is being read is taken as complete, if it can be. -/
def settled (l : Lexer) : Lexer :=
  match l.phase with
  | .word read => ⟨l.done ++ [.word (String.ofList read)], .between⟩
  | .closing q _ body => ⟨l.done ++ [.quoted q (String.ofList body)], .between⟩
  | _ => l

/-- A NUL inside quotes ends the text as well, and leaves a token that is none. -/
def feed (l : Lexer) (c : Char) : Except Fault Lexer :=
  match l.phase with
  | .between => .ok (start l.done c)
  | .word read =>
    if isWord c then .ok ⟨l.done, .word (read ++ [c])⟩ else .ok (start l.settled.done c)
  | .quoted q read body =>
    if c = '\x00' then .error (.unrecognizedToken (String.ofList read))
    else if c = q.char then .ok ⟨l.done, .closing q (read ++ [c]) body⟩
    else .ok ⟨l.done, .quoted q (read ++ [c]) (body ++ [c])⟩
  | .closing q read body =>
    if c = q.char then .ok ⟨l.done, .quoted q (read ++ [c]) (body ++ [c])⟩
    else .ok (start l.settled.done c)
  | .ended => .ok l

end Lexer

def tokens (cs : List Char) : Except Fault (List Token) := do
  let l ← cs.foldlM Lexer.feed {}
  match l.phase with
  | .quoted _ read _ => .error (.unrecognizedToken (String.ofList read))
  | _ => .ok l.settled.done

/-! ### Statements -/

/-- The parts of an insertion, each as it is written. -/
structure Clauses where
  table : String
  columns : List String
  rows : List (List Cell)
  target : List String
  overwritten : List String
  deriving DecidableEq, Repr

def comma : Token := .symbol ','

/-- The parts in brackets with commas between them, and what follows. -/
def bracketed? : List Token → Option (List (List Token) × List Token)
  | .symbol '(' :: rest =>
    match rest.dropWhile (· ≠ .symbol ')') with
    | [] => none
    | _ :: later => some ((rest.takeWhile (· ≠ .symbol ')')).splitOn comma, later)
  | _ => none

def name? : List Token → Option String
  | [.quoted .double s] => some s
  | _ => none

def names? (ts : List Token) : Option (List String × List Token) := do
  let (parts, later) ← bracketed? ts
  some (← parts.mapM name?, later)

/-- A number of 64 bits with its sign. -/
def number? (negative : Bool) (w : String) : Option Cell :=
  if w.toList.all isDigit then (fitInt64? (signed negative (natOf w.toList))).map .int else none

def cell? : List Token → Option Cell
  | [.quoted .single s] => some (.text s)
  | [.word w] => if w = "NULL" then some .null else number? false w
  | [.symbol '-', .word w] => number? true w
  | _ => none

theorem length_lt_of_bracketed? {ts later : List Token} {parts : List (List Token)}
    (h : bracketed? ts = some (parts, later)) : later.length < ts.length := by
  unfold bracketed? at h
  split at h
  · rename_i rest
    split at h
    · cases h
    · rename_i t _ hd
      cases h
      have := (List.dropWhile_suffix (l := rest) (· ≠ .symbol ')')).length_le
      grind
  · cases h

/-- Rows with commas between them, and what follows. -/
def rows? (ts : List Token) : Option (List (List Cell) × List Token) :=
  match _ : bracketed? ts with
  | none => none
  | some (parts, .symbol ',' :: more) => do
    let row ← parts.mapM cell?
    let (rows, later) ← rows? more
    some (row :: rows, later)
  | some (parts, later) => do some ([← parts.mapM cell?], later)
termination_by ts.length
decreasing_by
  have := length_lt_of_bracketed? ‹_›
  grind

/-- A column that takes the value of the row that was not inserted. -/
def assignment? : List Token → Option String
  | [.quoted .double column, .symbol '=', .quoted .double source, .symbol '.', .quoted .double value] =>
    if source = "excluded" ∧ value = column then some column else none
  | _ => none

/-- The columns that a conflict overwrites. -/
def action? : List Token → Option (List String)
  | [.word "DO", .word "NOTHING"] => some []
  | .word "DO" :: .word "UPDATE" :: .word "SET" :: rest => (rest.splitOn comma).mapM assignment?
  | _ => none

/-- The columns of the conflict target, none for any conflict, and what follows. -/
def target? : List Token → Option (List String × List Token)
  | .symbol '(' :: rest => names? (.symbol '(' :: rest)
  | ts => some ([], ts)

def clauses? : List Token → Option Clauses
  | .word "INSERT" :: .word "INTO" :: .quoted .double table :: rest => do
    match ← names? rest with
    | (columns, .word "VALUES" :: rest) =>
      match ← rows? rest with
      | (rows, .word "ON" :: .word "CONFLICT" :: rest) =>
        let (target, rest) ← target? rest
        some ⟨table, columns, rows, target, ← action? rest⟩
      | _ => none
    | _ => none
  | _ => none

/-- The parts of the insertion that a text is; none for a text that is no such insertion. -/
def read (text : String) : Except Fault (Option Clauses) := do .ok (clauses? (← tokens text.toList))

end Reading

/-- The parts of an insertion. -/
def Insert.clauses (s : Insert) : Reading.Clauses :=
  ⟨s.table, s.columns, s.rows, s.keys, s.overwritten⟩

end EventIntake.Sql
