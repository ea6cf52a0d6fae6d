import EventIntake.Proofs.Sql.Tokens

/-! The tokens of a rendered insertion, and the texts that keep it from being read. -/
namespace EventIntake.Sql.Reading

/-! ### Lists -/

/-- Parts with commas between them. -/
def listed (parts : List (List Token)) : List Token := [comma].intercalate parts

def bracketed (parts : List (List Token)) : List Token := .symbol '(' :: listed parts ++ [.symbol ')']

/-! ### Statements -/

def nameTokens (s : String) : List Token := [.quoted .double s]

def rowTokens (row : List Cell) : List Token := bracketed (row.map cellTokens)

def assignmentTokens (column : String) : List Token :=
  [.quoted .double column, .symbol '=', .quoted .double "excluded", .symbol '.', .quoted .double column]

def targetTokens (keys : List String) : List Token :=
  if keys.isEmpty then [] else bracketed (keys.map nameTokens)

def actionTokens (overwritten : List String) : List Token :=
  if overwritten.isEmpty then [.word "DO", .word "NOTHING"]
  else [.word "DO", .word "UPDATE", .word "SET"] ++ listed (overwritten.map assignmentTokens)

/-- The tokens of an insertion with some value. -/
def insertTokens (s : Insert) : List Token :=
  [.word "INSERT", .word "INTO"] ++ nameTokens s.table ++ bracketed (s.columns.map nameTokens) ++
    ([.word "VALUES"] ++ listed (s.rows.map rowTokens)) ++
    ([.word "ON", .word "CONFLICT"] ++ targetTokens s.keys ++ actionTokens s.overwritten)

/-- The fixed parts of the text of an insertion. -/
inductive Phrase
  | empty
  | blank
  | opening
  | closing
  | comma
  | insertInto
  | values
  | onConflict
  | doUpdate
  | excluded

namespace Phrase

def text : Phrase → List Char
  | empty => []
  | blank => [' ']
  | opening => ['(']
  | closing => [')']
  | comma => [',', ' ']
  | insertInto => "INSERT INTO ".toList
  | values => " VALUES ".toList
  | onConflict => " ON CONFLICT ".toList
  | doUpdate => " DO UPDATE SET ".toList
  | excluded => " = \"excluded\".".toList

/-- No token of a phrase goes on with what follows. -/
def tokens : Phrase → List Token
  | empty => []
  | blank => []
  | opening => [.symbol '(']
  | closing => [.symbol ')']
  | comma => [Reading.comma]
  | insertInto => [.word "INSERT", .word "INTO"]
  | values => [.word "VALUES"]
  | onConflict => [.word "ON", .word "CONFLICT"]
  | doUpdate => [.word "DO", .word "UPDATE", .word "SET"]
  | excluded => [.symbol '=', .quoted .double "excluded", .symbol '.']

end Phrase

/-- A way to cut texts of a dialect into tokens. The last token of a whole part is complete; that of a part
that was cut may go on with what follows. -/
structure Cutting (d : Dialect) (Whole Cut : List Char → List Token → Prop) : Prop where
  cut {cs : List Char} {ts : List Token} : Whole cs ts → Cut cs ts
  lead {cs cs' : List Char} {ts ts' : List Token} : Whole cs ts → Cut cs' ts' → Cut (cs ++ cs') (ts ++ ts')
  append {cs cs' : List Char} {ts ts' : List Token} :
    Cut cs ts → Cut cs' ts' → Starts cs' → Cut (cs ++ cs') (ts ++ ts')
  phrase (p : Phrase) : Whole p.text p.tokens
  nothing : Cut " DO NOTHING".toList [.word "DO", .word "NOTHING"]
  name (s : String) : Cut (Render.name s) (nameTokens s)
  cell (v : Cell) : Cut (Render.cell d v) (cellTokens v)

namespace Cutting
variable {d : Dialect} {Whole Cut : List Char → List Token → Prop} (C : Cutting d Whole Cut)
include C

section Lists
variable {α : Type} {parts : List α} {f : α → List Char} {g : α → List Token}

theorem listed (h : ∀ x ∈ parts, Cut (f x) (g x)) :
    Cut (Render.listed (parts.map f)) (Reading.listed (parts.map g)) := by
  induction parts with
  | nil => exact C.cut (C.phrase .empty)
  | cons x rest ih =>
    obtain ⟨hx, hrest⟩ := List.forall_mem_cons.mp h
    cases rest with
    | nil => simpa [Render.listed, Reading.listed] using hx
    | cons y rest =>
      have hcomma : Whole [',', ' '] [comma] := C.phrase .comma
      have hlater := C.append hx (C.lead hcomma (ih hrest)) (.cons rfl)
      simpa [Render.listed, Reading.listed, List.intercalate_cons_cons] using hlater

theorem bracketed (h : ∀ x ∈ parts, Cut (f x) (g x)) :
    Cut (Render.bracketed (parts.map f)) (Reading.bracketed (parts.map g)) := by
  have hopen : Whole ['('] [.symbol '('] := C.phrase .opening
  have hclose : Whole [')'] [.symbol ')'] := C.phrase .closing
  exact C.append (C.lead hopen (C.listed h)) (C.cut hclose) (.cons rfl)

end Lists

theorem assignment (column : String) :
    Cut (Render.name column ++ " = \"excluded\".".toList ++ Render.name column)
      (assignmentTokens column) := by
  have hexcluded : Whole " = \"excluded\".".toList [.symbol '=', .quoted .double "excluded", .symbol '.'] :=
    C.phrase .excluded
  rw [List.append_assoc]
  exact C.append (C.name column) (C.lead hexcluded (C.name column)) (.cons rfl)

theorem onConflict (s : Insert) :
    Cut (Render.onConflict s)
      ([.word "ON", .word "CONFLICT"] ++ targetTokens s.keys ++ actionTokens s.overwritten) := by
  have hon : Whole " ON CONFLICT ".toList [.word "ON", .word "CONFLICT"] := C.phrase .onConflict
  have hset : Whole " DO UPDATE SET ".toList [.word "DO", .word "UPDATE", .word "SET"] := C.phrase .doUpdate
  have htarget : Cut (if s.keys.isEmpty then [] else Render.bracketed (s.keys.map Render.name))
      (targetTokens s.keys) := by
    rw [targetTokens]
    split
    · exact C.cut (C.phrase .empty)
    · exact C.bracketed fun key _ => C.name key
  refine C.append (C.lead hon htarget) ?_ ?_
  · rw [actionTokens]
    split
    · exact C.nothing
    · exact C.lead hset (C.listed fun column _ => C.assignment column)
  · split <;> exact .cons rfl

theorem values {rows : List (List Cell)} (h : rows.all List.isEmpty = false) :
    Cut (Render.values d rows) ([.word "VALUES"] ++ Reading.listed (rows.map rowTokens)) := by
  have hvalues : Whole " VALUES ".toList [.word "VALUES"] := C.phrase .values
  rw [Render.values, if_neg (by simp [h])]
  exact C.lead hvalues (C.listed fun row _ => C.bracketed fun v _ => C.cell v)

/-- A statement with values is cut into its tokens. -/
theorem insert {s : Insert} (h : s.rows.all List.isEmpty = false) :
    Cut (Render.insert d s).toList (insertTokens s) := by
  have hinsert : Whole "INSERT INTO ".toList [.word "INSERT", .word "INTO"] := C.phrase .insertInto
  have hblank : Whole [' '] [] := C.phrase .blank
  have hcolumns : Cut (' ' :: Render.bracketed (s.columns.map Render.name))
      (Reading.bracketed (s.columns.map nameTokens)) :=
    C.lead hblank (C.bracketed fun column _ => C.name column)
  have hhead := C.append (C.lead hinsert (C.name s.table)) hcolumns (.cons rfl)
  have hvalues := C.append hhead (C.values h) (by
    rw [Render.values, if_neg (by simp [h])]
    exact .cons rfl)
  have hall := C.append hvalues (C.onConflict s) (.cons rfl)
  exact (congrArg (Cut · (insertTokens s)) String.toList_ofList).mpr hall

end Cutting

theorem cutting : Cutting .sqlite (fun cs ts => Passes cs ts ∧ checked ts = .ok ()) Reads where
  cut h := h.1.reads h.2
  lead h := h.1.append h.2
  append := Reads.append
  phrase p := by cases p <;> exact ⟨rfl, rfl⟩
  nothing := rfl
  name := reads_name
  cell := reads_cell

/-- A statement with values is read as its tokens. -/
theorem reads_insert {s : Insert} (h : s.rows.all List.isEmpty = false) :
    Reads (Render.insert .sqlite s).toList (insertTokens s) :=
  cutting.insert h

/-! ### Refused texts -/

theorem findSome?_listed (parts : List (List Token)) :
    (listed parts).findSome? Token.cut? = parts.findSome? fun part => part.findSome? Token.cut? := by
  induction parts with
  | nil => rfl
  | cons part rest ih =>
    cases rest with
    | nil => cases h : part.findSome? Token.cut? <;> simp [listed, h]
    | cons next rest =>
      rw [listed] at ih ⊢
      rw [List.intercalate_cons_cons, List.findSome?_append, List.findSome?_append, ih]
      cases h : part.findSome? Token.cut? <;> simp [comma, List.findSome?_cons, h]

theorem findSome?_bracketed (parts : List (List Token)) :
    (bracketed parts).findSome? Token.cut? = parts.findSome? fun part => part.findSome? Token.cut? := by
  rw [← findSome?_listed, bracketed, List.findSome?_append, List.findSome?_cons]
  simp

/-- The text of a value as it is written. -/
def written (v : Cell) : List Char :=
  match v with
  | .text t => Render.literal .sqlite t
  | _ => []

theorem findSome?_cellTokens (v : Cell) :
    (cellTokens v).findSome? Token.cut? = Database.cut? (written v) := by
  cases v with
  | int n =>
    simp only [cellTokens]
    split <;> rfl
  | text s => simp [cellTokens, written]
  | null => rfl

theorem findSome?_rows (rows : List (List Cell)) :
    (listed (rows.map rowTokens)).findSome? Token.cut? =
      rows.flatten.findSome? fun v => Database.cut? (written v) := by
  simp only [findSome?_listed, List.findSome?_map, Function.comp_def, rowTokens, findSome?_bracketed,
    findSome?_cellTokens]
  induction rows with
  | nil => rfl
  | cons row rest ih =>
    rw [List.findSome?_cons, ih, List.flatten_cons, List.findSome?_append]
    cases row.findSome? fun v => Database.cut? (written v) <;> rfl

theorem findSome?_names (cs : List String) :
    (bracketed (cs.map nameTokens)).findSome? Token.cut? =
      cs.findSome? fun c => Database.cut? (Render.name c) := by
  simp [findSome?_bracketed, List.findSome?_map, Function.comp_def, nameTokens]

/-- Where the names of columns are not refused, they are not refused in the conflict clause either. -/
theorem findSome?_onConflict {s : Insert}
    (h : (s.columns.findSome? fun c => Database.cut? (Render.name c)) = none) :
    (targetTokens s.keys ++ actionTokens s.overwritten).findSome? Token.cut? = none := by
  have hcolumns := List.findSome?_eq_none_iff.mp h
  have htarget : (targetTokens s.keys).findSome? Token.cut? = none := by
    rw [targetTokens]
    split
    · rfl
    · rw [findSome?_names]
      exact List.findSome?_eq_none_iff.mpr fun c hc => hcolumns c (List.mem_append_left _ hc)
  have haction : (actionTokens s.overwritten).findSome? Token.cut? = none := by
    rw [actionTokens]
    split
    · rfl
    · have hexcluded : Database.cut? (Render.name "excluded") = none := by decide
      have hdata : ∀ c ∈ s.overwritten, Database.cut? (Render.name c) = none := by
        intro c hc
        refine hcolumns c (List.mem_append_right _ ?_)
        unfold Insert.overwritten at hc
        split at hc
        · exact hc
        · cases hc
      rw [List.findSome?_append, findSome?_listed, List.findSome?_map]
      refine Option.or_eq_none_iff.mpr ⟨rfl, List.findSome?_eq_none_iff.mpr fun c hc => ?_⟩
      simp [assignmentTokens, hexcluded, hdata c hc]
  rw [List.findSome?_append, htarget, haction]
  rfl

/-- What is read of the first name or text with a NUL. -/
def firstCut? (s : Insert) : Option String :=
  (Database.cut? (Render.name s.table)).or
    ((s.columns.findSome? fun c => Database.cut? (Render.name c)).or
      (s.rows.flatten.findSome? fun v => Database.cut? (written v)))

theorem textFault?_eq {s : Insert} (h : s.columns ≠ []) :
    Database.textFault? s = (firstCut? s).map .unrecognizedToken := by
  rw [Database.textFault?, firstCut?]
  cases Database.cut? (Render.name s.table) with
  | some token => rfl
  | none =>
    simp only [List.isEmpty_iff, h, if_false, List.findSome?_append, List.findSome?_map, Option.none_or]
    rfl

theorem findSome?_insertTokens (s : Insert) :
    (insertTokens s).findSome? Token.cut? = firstCut? s := by
  have htable : (nameTokens s.table).findSome? Token.cut? = Database.cut? (Render.name s.table) := by
    simp [nameTokens]
  simp only [insertTokens, firstCut?, List.findSome?_append, htable, findSome?_names, findSome?_rows,
    List.findSome?_cons, List.findSome?_nil, Token.cut?_word, Option.none_or, Option.or_assoc]
  cases hcolumns : s.columns.findSome? fun c => Database.cut? (Render.name c) with
  | some token => rfl
  | none =>
    have h := findSome?_onConflict hcolumns
    rw [List.findSome?_append] at h
    simp [h]

/-- What makes a database refuse tokens is what is taken as a fault in the text. -/
theorem checked_insertTokens {s : Insert} (h : s.columns ≠ []) :
    checked (insertTokens s) = match Database.textFault? s with
      | some fault => .error fault
      | none => .ok () := by
  rw [textFault?_eq h, checked, findSome?_insertTokens]
  cases firstCut? s <;> rfl

end EventIntake.Sql.Reading
