import EventIntake.Proofs.Sql.Insert
import EventIntake.Proofs.Sql.RoundTrip
import Mathlib.Data.List.Basic
import Mathlib.Tactic.SplitIfs

/-! The text of an insertion is read back by the quoting of its dialect alone. No text ends its literal, and
no two statements have the same text. -/
namespace EventIntake.Sql.Quoting
open Reading

/-! ### Tokens -/

/-- What a character after a backslash stands for. -/
def unescape (c : Char) : Char :=
  if c = '0' then '\x00'
  else if c = 'b' then '\x08'
  else if c = 't' then '\t'
  else if c = 'z' then '\x1a'
  else if c = 'n' then '\n'
  else if c = 'r' then '\r'
  else c

/-- What has been read of a token. -/
inductive Phase
  | between
  | word (letters : List Char)
  /-- Inside quotes, where a backslash may have a meaning. -/
  | quoted (q : Quote) (escaping : Bool) (body : List Char)
  | backslash (q : Quote) (body : List Char)
  /-- After a quote, which ends the token unless it comes twice. -/
  | closing (q : Quote) (escaping : Bool) (body : List Char)
  deriving DecidableEq, Repr

structure Lexer where
  done : List Token := []
  phase : Phase := .between
  deriving DecidableEq, Repr

namespace Lexer

/-- A character that belongs to no token before it. -/
def start (done : List Token) (c : Char) : Lexer :=
  if isBlank c then ⟨done, .between⟩
  else if c = Quote.single.char then ⟨done, .quoted .single false []⟩
  else if c = Quote.double.char then ⟨done, .quoted .double false []⟩
  else if isWord c then ⟨done, .word [c]⟩
  else ⟨done ++ [.symbol c], .between⟩

/-- The token that is being read is taken as complete, if it can be. -/
def settled (l : Lexer) : Lexer :=
  match l.phase with
  | .word letters => ⟨l.done ++ [.word (String.ofList letters)], .between⟩
  | .closing q _ body => ⟨l.done ++ [.quoted q (String.ofList body)], .between⟩
  | _ => l

/-- Only PostgreSQL has literals with backslashes, which have an `E` before them. -/
def feed (d : Dialect) (l : Lexer) (c : Char) : Lexer :=
  match l.phase with
  | .between => start l.done c
  | .word letters =>
    if isWord c then ⟨l.done, .word (letters ++ [c])⟩
    else if d = .postgres ∧ letters = ['E'] ∧ c = Quote.single.char then ⟨l.done, .quoted .single true []⟩
    else start l.settled.done c
  | .quoted q escaping body =>
    if escaping ∧ c = '\\' then ⟨l.done, .backslash q body⟩
    else if c = q.char then ⟨l.done, .closing q escaping body⟩
    else ⟨l.done, .quoted q escaping (body ++ [c])⟩
  | .backslash q body => ⟨l.done, .quoted q true (body ++ [unescape c])⟩
  | .closing q escaping body =>
    if c = q.char then ⟨l.done, .quoted q escaping (body ++ [c])⟩
    else start l.settled.done c

/-- With more tokens before. -/
def after (done : List Token) (l : Lexer) : Lexer := { l with done := done ++ l.done }

end Lexer

/-- The tokens of a text; none if it ends inside quotes. -/
def tokens? (d : Dialect) (cs : List Char) : Option (List Token) :=
  let l := (cs.foldl (Lexer.feed d) {}).settled
  if l.phase = .between then some l.done else none

/-- The parts of the insertion that a text is; none for a text that is no such insertion. -/
def read? (d : Dialect) (text : String) : Option Clauses := (tokens? d text.toList).bind clauses?

namespace Lexer
variable {d : Dialect}

theorem settled_settled (l : Lexer) : l.settled.settled = l.settled := by
  obtain ⟨done, phase⟩ := l
  cases phase <;> rfl

theorem feed_settled (l : Lexer) {c : Char} (h : breaks c) : l.settled.feed d c = l.feed d c := by
  simp only [breaks, Bool.and_eq_true, Bool.not_eq_true', bne_iff_ne] at h
  obtain ⟨⟨hword, hsingle⟩, hdouble⟩ := h
  obtain ⟨done, phase⟩ := l
  cases phase with
  | word => simp [feed, settled, hword, hsingle]
  | closing q => cases q <;> simp [feed, settled, hsingle, hdouble]
  | _ => rfl

theorem settled_foldl (l : Lexer) {cs : List Char} (h : Starts cs) :
    (cs.foldl (feed d) l).settled = (cs.foldl (feed d) l.settled).settled := by
  cases cs with
  | nil => exact l.settled_settled.symm
  | cons c rest => rw [List.foldl_cons, List.foldl_cons, l.feed_settled (h c rfl)]

theorem start_append (done ts : List Token) (c : Char) : start (done ++ ts) c = (start ts c).after done := by
  simp only [start, apply_ite (after done)]
  simp [after]

theorem settled_after (done : List Token) (l : Lexer) : (l.after done).settled = l.settled.after done := by
  obtain ⟨ts, phase⟩ := l
  cases phase <;> simp [settled, after]

theorem feed_after (done : List Token) (l : Lexer) (c : Char) :
    (l.after done).feed d c = (l.feed d c).after done := by
  obtain ⟨ts, phase⟩ := l
  have hafter : (⟨ts, phase⟩ : Lexer).after done = ⟨done ++ ts, phase⟩ := rfl
  rw [hafter]
  cases phase with
  | between => exact start_append done ts c
  | backslash => rfl
  | _ =>
    simp only [feed, apply_ite (after done)]
    simp [after, settled, start_append]

theorem foldl_after (done : List Token) (l : Lexer) (cs : List Char) :
    cs.foldl (feed d) (l.after done) = (cs.foldl (feed d) l).after done := by
  induction cs generalizing l with
  | nil => rfl
  | cons c rest ih => rw [List.foldl_cons, List.foldl_cons, feed_after, ih]

end Lexer

/-- The characters are complete tokens. -/
def Whole (d : Dialect) (cs : List Char) (ts : List Token) : Prop :=
  cs.foldl (Lexer.feed d) {} = { done := ts }

/-- The characters are tokens. The last may go on. -/
def Cut (d : Dialect) (cs : List Char) (ts : List Token) : Prop :=
  (cs.foldl (Lexer.feed d) {}).settled = { done := ts }

section Append
variable {d : Dialect} {cs cs' : List Char} {ts ts' : List Token}

theorem foldl_done (done : List Token) (cs : List Char) :
    cs.foldl (Lexer.feed d) { done := done } = (cs.foldl (Lexer.feed d) {}).after done := by
  rw [← Lexer.foldl_after]
  simp [Lexer.after]

theorem Whole.cut (h : Whole d cs ts) : Cut d cs ts := congrArg Lexer.settled h

theorem Whole.append (h : Whole d cs ts) (h' : Cut d cs' ts') : Cut d (cs ++ cs') (ts ++ ts') := by
  rw [Cut, List.foldl_append, h, foldl_done, Lexer.settled_after, h']
  rfl

theorem Cut.settled_append (h : Cut d cs ts) (hs : Starts cs') :
    ((cs ++ cs').foldl (Lexer.feed d) {}).settled = (cs'.foldl (Lexer.feed d) {}).settled.after ts := by
  rw [List.foldl_append, Lexer.settled_foldl _ hs, h, foldl_done, Lexer.settled_after]

theorem Cut.append (h : Cut d cs ts) (h' : Cut d cs' ts') (hs : Starts cs') :
    Cut d (cs ++ cs') (ts ++ ts') := by
  rw [Cut, h.settled_append hs, h']
  rfl

/-- What follows is read on its own. -/
theorem Cut.tokens_append (h : Cut d cs ts) (hs : Starts cs') :
    tokens? d (cs ++ cs') = (ts ++ ·) <$> tokens? d cs' := by
  simp only [tokens?, h.settled_append hs, Lexer.after]
  split <;> rfl

theorem Cut.tokens_eq (h : Cut d cs ts) : tokens? d cs = some ts := by
  rw [tokens?, h]
  rfl

end Append

/-! ### Names and values -/

section Values
variable (d : Dialect)

theorem foldl_doubled (q : Quote) (cs body : List Char) :
    (Render.doubled q.char cs).foldl (Lexer.feed d) ⟨[], .quoted q false body⟩ =
      ⟨[], .quoted q false (body ++ cs)⟩ := by
  induction cs generalizing body with
  | nil => simp [Render.doubled]
  | cons c rest ih =>
    have hcons : Render.doubled q.char (c :: rest) =
        (if c = q.char then [c, c] else [c]) ++ Render.doubled q.char rest := rfl
    rw [hcons]
    by_cases hc : c = q.char <;> simp [Lexer.feed, hc, ih]

theorem cut_written (q : Quote) (s : String) : Cut d (q.written s) [.quoted q s] := by
  have hstart : Lexer.feed d {} q.char = ⟨[], .quoted q false []⟩ := by cases q <;> rfl
  rw [Cut, Quote.written, List.cons_append, List.foldl_cons, hstart, List.foldl_append, foldl_doubled]
  simp [Lexer.feed, Lexer.settled]

theorem unescape_of_backslashed? {c e : Char} (h : Render.backslashed? c = some e) : unescape e = c := by
  have hsame {a : Char} (ha : c.toNat = a.toNat) : a = c := (Char.toNat_inj.mp ha).symm
  unfold Render.backslashed? at h
  split_ifs at h with hself hnul hback htab hsub hline hreturn <;> cases h
  · rcases hself with rfl | rfl | rfl <;> rfl
  · exact hsame hnul
  · exact hsame hback
  · exact htab.symm
  · exact hsame hsub
  · exact hline.symm
  · exact hreturn.symm

theorem foldl_backslashes (cs body : List Char) :
    (Render.backslashes cs).foldl (Lexer.feed d) ⟨[], .quoted .single true body⟩ =
      ⟨[], .quoted .single true (body ++ cs)⟩ := by
  induction cs generalizing body with
  | nil => simp [Render.backslashes]
  | cons c rest ih =>
    cases hc : Render.backslashed? c with
    | some e =>
      have hcons : Render.backslashes (c :: rest) = '\\' :: e :: Render.backslashes rest := by
        simp [Render.backslashes, hc]
      simp [hcons, Lexer.feed, unescape_of_backslashed? hc, ih]
    | none =>
      have hcons : Render.backslashes (c :: rest) = c :: Render.backslashes rest := by
        simp [Render.backslashes, hc]
      have hplain : c ≠ '\\' ∧ c ≠ Quote.single.char := by
        constructor <;> rintro rfl <;> cases hc
      simp [hcons, Lexer.feed, hplain, ih]

/-- Without a backslash to write, a literal is written alike in both dialects. -/
theorem literal_eq_written {s : String} (h : (s.toList.any fun c => (Render.backslashed? c).isSome) = false) :
    Render.literal .postgres s = Quote.single.written s := by
  have hnone : ∀ c ∈ s.toList, Render.backslashed? c = none := by simpa using h
  have hbody : Render.backslashes s.toList = Render.doubled '\'' s.toList := by
    refine List.flatMap_congr fun c hc => ?_
    have hquote : c ≠ '\'' := by
      rintro rfl
      cases hnone _ hc
    simp [hnone c hc, hquote]
  simp [Render.literal, Quote.written, Quote.char, h, hbody]

/-- A text is read back from its literal. -/
theorem cut_literal (s : String) : Cut d (Render.literal d s) [.quoted .single s] := by
  cases d with
  | sqlite => exact cut_written .sqlite .single s
  | postgres =>
    cases h : s.toList.any fun c => (Render.backslashed? c).isSome with
    | false =>
      rw [literal_eq_written h]
      exact cut_written .postgres .single s
    | true =>
      have hstart : ['E', '\''].foldl (Lexer.feed .postgres) {} = ⟨[], .quoted .single true []⟩ := rfl
      have hliteral : Render.literal .postgres s =
          ['E', '\''] ++ (Render.backslashes s.toList ++ ['\'']) := by simp [Render.literal, h]
      rw [Cut, hliteral, List.foldl_append, hstart, List.foldl_append, foldl_backslashes]
      simp [Lexer.feed, Lexer.settled, Quote.char]

theorem foldl_word (letters : List Char) {w : List Char} (h : ∀ c ∈ w, isWord c) :
    w.foldl (Lexer.feed d) ⟨[], .word letters⟩ = ⟨[], .word (letters ++ w)⟩ := by
  induction w generalizing letters with
  | nil => simp
  | cons c rest ih =>
    obtain ⟨hc, hrest⟩ := List.forall_mem_cons.mp h
    simp [Lexer.feed, hc, ih _ hrest]

theorem cut_word {w : List Char} (hne : w ≠ []) (h : ∀ c ∈ w, isWord c) :
    Cut d w [.word (String.ofList w)] := by
  obtain ⟨c, rest, rfl⟩ := List.exists_cons_of_ne_nil hne
  obtain ⟨hc, hrest⟩ := List.forall_mem_cons.mp h
  have hstart : Lexer.start [] c = ⟨[], .word [c]⟩ := by
    rw [Lexer.start, if_neg (by simp [isBlank_of_isWord hc]), if_neg (ne_of_isWord hc (by decide)),
      if_neg (ne_of_isWord hc (by decide)), if_pos hc]
  rw [Cut, List.foldl_cons, Lexer.feed, hstart, foldl_word d [c] hrest]
  rfl

theorem cut_cell (v : Cell) : Cut d (Render.cell d v) (cellTokens v) := by
  cases v with
  | int n =>
    have hminus : Whole d ['-'] [.symbol '-'] := rfl
    have hdigits : Cut d (toString n.toInt.natAbs).toList [.word (toString n.toInt.natAbs)] := by
      have h := cut_word d (toString_ne_nil n.toInt.natAbs) (isWord_toString n.toInt.natAbs)
      rwa [String.ofList_toList] at h
    simp only [Render.cell, cellTokens, Decimal.toString_eq]
    split
    · exact hminus.append hdigits
    · exact hdigits
  | text s => exact cut_literal d s
  | null => rfl

theorem cutting : Cutting d (Whole d) (Cut d) where
  cut := Whole.cut
  lead := Whole.append
  append := Cut.append
  phrase p := by cases d <;> cases p <;> rfl
  nothing := by cases d <;> rfl
  name := cut_written d .double
  cell := cut_cell d

end Values

/-! ### Statements -/

/-- A statement is read back from its text, whatever its names and texts hold. -/
theorem read?_insert (d : Dialect) {s : Insert} (hcolumns : s.columns ≠ []) (hrows : s.rows ≠ [])
    (h : ∀ row ∈ s.rows, row ≠ []) : read? d (Render.insert d s) = some s.clauses := by
  have hvalues : s.rows.all List.isEmpty = false := by
    obtain ⟨row, hrow⟩ := List.exists_mem_of_ne_nil _ hrows
    exact List.all_eq_false.mpr ⟨row, hrow, by simpa using h row hrow⟩
  rw [read?, ((cutting d).insert hvalues).tokens_eq]
  exact clauses?_insertTokens hcolumns hrows h

/-- What a statement stores, without what it does on a conflict. -/
structure Contents where
  table : String
  keys : List String
  data : List String
  rows : List (List Cell)
  deriving DecidableEq, Repr

/-- The columns of the conflict target come first. Those after them hold data. -/
def contents? (d : Dialect) (text : String) : Option Contents :=
  (read? d text).map fun c => ⟨c.table, c.target, c.columns.drop c.target.length, c.rows⟩

theorem contents?_ofRecord (d : Dialect) {mode : ConflictMode} {record : Record} {s : Insert}
    (h : Insert.ofRecord mode record = .ok (some s)) (hkeys : ∀ row ∈ record, row.keys ≠ []) :
    contents? d (Render.insert d s) = some ⟨s.table, s.keys, s.data, s.rows⟩ := by
  obtain ⟨hrows, -, hne, hfit⟩ := Insert.of_ofRecord_eq h
  obtain ⟨first, hfirst⟩ := List.exists_mem_of_ne_nil _ hne
  have hcolumns : s.columns ≠ [] := fun hnil =>
    names_ne_nil (hkeys first hfirst) ((hfit first hfirst).2.1.trans (List.append_eq_nil_iff.mp hnil).1)
  have hvalues : ∀ vs ∈ s.rows, vs ≠ [] := by
    intro vs hvs
    rw [hrows] at hvs
    obtain ⟨row, hrow, rfl⟩ := List.mem_map.mp hvs
    exact List.append_ne_nil_of_left_ne_nil (cells_ne_nil (hkeys row hrow)) _
  rw [contents?, read?_insert d hcolumns (by simpa [hrows] using hne) hvalues]
  simp [Insert.clauses, Insert.columns]

/-- Whatever the names and the texts of a record hold, its statement is read back from the text: the table, the
columns of the keys and of the data in order, and the values of every row. So records with the same text have the
same rows, up to the order of their columns; and a text is read back from its literal, whatever stands behind it. -/
theorem contents_of_text (d : Dialect) (mode : ConflictMode) {first : Row} {rest : Record} {s : Insert}
    (h : Insert.ofRecord mode (first :: rest) = .ok (some s)) (hkeys : ∀ row ∈ first :: rest, row.keys ≠ []) :
    contents? d (Render.insert d s) =
        some ⟨first.table, names first.keys, names first.data,
          (first :: rest).map fun row => cells row.keys ++ cells row.data⟩ ∧
      (∀ (mode' : ConflictMode) (record' : Record) (s' : Insert),
        Insert.ofRecord mode' record' = .ok (some s') → (∀ row ∈ record', row.keys ≠ []) →
        Render.insert d s' = Render.insert d s → record'.map Row.sorted = (first :: rest).map Row.sorted) ∧
      ∀ (text : String) (later : List Char), Starts later →
        tokens? d (Render.literal d text ++ later) = (.quoted .single text :: ·) <$> tokens? d later := by
  have hcontents := contents?_ofRecord d h hkeys
  refine ⟨?_, fun mode' record' s' h' hkeys' htext => ?_, fun text later hlater => ?_⟩
  · obtain ⟨hrows, -, -, hfit⟩ := Insert.of_ofRecord_eq h
    obtain ⟨htable, hnames, hdata⟩ := hfit first List.mem_cons_self
    rw [hcontents, hrows, htable, hnames, hdata]
  · have hsame := contents?_ofRecord d h' hkeys'
    rw [htext, hcontents, Option.some_inj, Contents.mk.injEq] at hsame
    obtain ⟨htable, hnames, hdata, hrows⟩ := hsame
    have hrow : s'.row = s.row := by
      funext vs
      rw [Insert.row, Insert.row, htable, hnames, hdata]
    rw [← Insert.map_row_of_ofRecord h, ← Insert.map_row_of_ofRecord h', ← hrows, hrow]
  · exact (cut_literal d text).tokens_append hlater

/-- Quotes and backslashes in a name, in a text and at its end. -/
theorem quotes_and_backslashes_read_back :
    let row : Row := ⟨"a\"b", [("k\"", .text "it's \\' -- \\")], [("v", .null), ("u", .int (-5))]⟩
    let s : Insert := ⟨"a\"b", ["k\""], ["u", "v"], [[.text "it's \\' -- \\", .int (-5), .null]], .upsert⟩
    Insert.ofRecord .upsert [row] = .ok (some s) ∧ (∀ r ∈ [row], r.keys ≠ []) ∧
      contents? .postgres (Render.insert .postgres s) =
        some ⟨"a\"b", ["k\""], ["u", "v"], [[.text "it's \\' -- \\", .int (-5), .null]]⟩ := by
  intro row s
  have h : Insert.ofRecord .upsert [row] = .ok (some s) := by rfl
  have hkeys : ∀ r ∈ [row], r.keys ≠ [] := by simp [row]
  exact ⟨h, hkeys, (contents_of_text .postgres .upsert h hkeys).1⟩

end EventIntake.Sql.Quoting
