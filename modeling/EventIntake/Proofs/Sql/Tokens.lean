import EventIntake.Proofs.Decimal.Digits
import EventIntake.Proofs.Sql.Reading
import EventIntake.Store.Database

/-! Names and values are read as the tokens they were rendered from, whatever they hold. Only a NUL in one
of them is refused. -/
namespace EventIntake.Sql.Reading
open Decimal

/-! ### Token by token -/

@[simp] theorem Quote.char_ne_nul (q : Quote) : q.char ≠ '\x00' := by cases q <;> decide

@[simp] theorem Quote.nul_ne_char (q : Quote) : '\x00' ≠ q.char := q.char_ne_nul.symm

/-- How a token in quotes is written. -/
def Quote.written (q : Quote) (s : String) : List Char :=
  q.char :: Render.doubled q.char s.toList ++ [q.char]

/-- What is read of a token with a NUL. -/
def Token.cut? : Token → Option String
  | .quoted q s => Database.cut? (q.written s)
  | _ => none

@[simp] theorem Token.cut?_symbol (c : Char) : (symbol c).cut? = none := rfl
@[simp] theorem Token.cut?_word (w : String) : (word w).cut? = none := rfl
@[simp] theorem Token.cut?_name (s : String) :
    (quoted .double s).cut? = Database.cut? (Render.name s) := rfl
@[simp] theorem Token.cut?_text (s : String) :
    (quoted .single s).cut? = Database.cut? (Render.literal .sqlite s) := rfl

/-- The first token with a NUL is refused. -/
def checked (ts : List Token) : Except Fault Unit :=
  match ts.findSome? Token.cut? with
  | some token => .error (.unrecognizedToken token)
  | none => .ok ()

theorem checked_append (ts ts' : List Token) :
    checked (ts ++ ts') = checked ts >>= fun _ => checked ts' := by
  simp only [checked, List.findSome?_append]
  cases ts.findSome? Token.cut? <;> rfl

/-- The characters are complete tokens. -/
def Passes (cs : List Char) (ts : List Token) : Prop :=
  cs.foldlM Lexer.feed {} = .ok { done := ts }

/-- The characters are tokens, unless one is refused. The last may go on. -/
def Reads (cs : List Char) (ts : List Token) : Prop :=
  Lexer.settled <$> cs.foldlM Lexer.feed {} = (fun _ => { done := ts }) <$> checked ts

/-- No token goes on with the character. -/
def breaks (c : Char) : Bool := !isWord c && c != Quote.single.char && c != Quote.double.char

/-- No token goes on with the first character. -/
def Starts (cs : List Char) : Prop := ∀ c ∈ cs.head?, breaks c

theorem Starts.cons {c : Char} {cs : List Char} (h : breaks c) : Starts (c :: cs) := by
  rintro _ ⟨⟩
  exact h

namespace Lexer

theorem settled_settled (l : Lexer) : l.settled.settled = l.settled := by
  obtain ⟨done, phase⟩ := l
  cases phase <;> rfl

theorem feed_settled (l : Lexer) {c : Char} (h : breaks c) : l.settled.feed c = l.feed c := by
  simp only [breaks, Bool.and_eq_true, Bool.not_eq_true', bne_iff_ne] at h
  obtain ⟨⟨hword, hsingle⟩, hdouble⟩ := h
  obtain ⟨done, phase⟩ := l
  cases phase with
  | word => simp [feed, settled, hword]
  | closing q => cases q <;> simp [feed, settled, hsingle, hdouble]
  | _ => rfl

theorem settled_foldlM (l : Lexer) {cs : List Char} (h : Starts cs) :
    settled <$> cs.foldlM feed l = settled <$> cs.foldlM feed l.settled := by
  cases cs with
  | nil => exact congrArg Except.ok l.settled_settled.symm
  | cons c rest =>
    rw [List.foldlM_cons, List.foldlM_cons, l.feed_settled (h c rfl)]

/-- With more tokens before. -/
def after (done : List Token) (l : Lexer) : Lexer := { l with done := done ++ l.done }

theorem start_append (done ts : List Token) (c : Char) :
    start (done ++ ts) c = (start ts c).after done := by
  simp only [start, apply_ite (after done)]
  simp [after]

theorem settled_after (done : List Token) (l : Lexer) :
    (l.after done).settled = l.settled.after done := by
  obtain ⟨ts, phase⟩ := l
  cases phase <;> simp [settled, after]

theorem feed_after (done : List Token) (l : Lexer) (c : Char) :
    (l.after done).feed c = after done <$> l.feed c := by
  obtain ⟨ts, phase⟩ := l
  cases phase with
  | between => exact congrArg Except.ok (start_append done ts c)
  | word read =>
    by_cases h : isWord c <;> simp [feed, after, settled, start_append, h, Functor.map, Except.map]
  | quoted q =>
    by_cases h : c = '\x00' <;> by_cases hq : c = q.char <;>
      simp [feed, after, h, hq, Functor.map, Except.map]
  | closing q =>
    by_cases h : c = q.char <;> simp [feed, after, settled, start_append, h, Functor.map, Except.map]
  | ended => rfl

theorem foldlM_after (done : List Token) (l : Lexer) (cs : List Char) :
    cs.foldlM feed (l.after done) = after done <$> cs.foldlM feed l := by
  induction cs generalizing l with
  | nil => rfl
  | cons c rest ih =>
    rw [List.foldlM_cons, List.foldlM_cons, feed_after]
    cases l.feed c with
    | error => rfl
    | ok next => exact ih next

end Lexer

theorem Passes.reads {cs : List Char} {ts : List Token} (h : Passes cs ts) (hc : checked ts = .ok ()) :
    Reads cs ts := by
  rw [Reads, h, hc]
  rfl

section Append
variable {cs cs' : List Char} {ts ts' : List Token}

theorem Reads.after (h : Reads cs ts) (done : List Token) :
    Lexer.settled <$> cs.foldlM Lexer.feed { done := done } =
      (fun _ => { done := done ++ ts }) <$> checked ts := by
  have hd : ({ done := done } : Lexer) = Lexer.after done {} := by simp [Lexer.after]
  rw [hd, Lexer.foldlM_after]
  calc Lexer.settled <$> Lexer.after done <$> cs.foldlM Lexer.feed {}
    _ = Lexer.after done <$> Lexer.settled <$> cs.foldlM Lexer.feed {} := by
        simp only [Functor.map_map, Lexer.settled_after]
    _ = (fun _ => { done := done ++ ts }) <$> checked ts := by
        rw [h, Functor.map_map]
        rfl

theorem Passes.append (h : Passes cs ts) (hc : checked ts = .ok ()) (h' : Reads cs' ts') :
    Reads (cs ++ cs') (ts ++ ts') := by
  rw [Reads, List.foldlM_append, h, checked_append, hc]
  exact h'.after ts

theorem Reads.outcome (h : Reads cs ts) :
    (∃ fault, checked ts = .error fault ∧ cs.foldlM Lexer.feed {} = .error fault) ∨
      ∃ l : Lexer, checked ts = .ok () ∧ cs.foldlM Lexer.feed {} = .ok l ∧
        l.settled = { done := ts } := by
  rw [Reads] at h
  cases hl : cs.foldlM Lexer.feed {} with
  | error fault =>
    rw [hl] at h
    cases hc : checked ts with
    | error fault' =>
      rw [hc] at h
      cases h
      exact .inl ⟨fault, rfl, rfl⟩
    | ok =>
      rw [hc] at h
      cases h
  | ok l =>
    rw [hl] at h
    cases hc : checked ts with
    | error fault =>
      rw [hc] at h
      cases h
    | ok =>
      rw [hc] at h
      exact .inr ⟨l, rfl, rfl, Except.ok.inj h⟩

theorem Reads.append (h : Reads cs ts) (h' : Reads cs' ts') (hs : Starts cs') :
    Reads (cs ++ cs') (ts ++ ts') := by
  rw [Reads, List.foldlM_append, checked_append]
  rcases h.outcome with ⟨fault, hc, hl⟩ | ⟨l, hc, hl, hsettled⟩
  · rw [hc, hl]
    rfl
  · rw [hc, hl]
    exact (l.settled_foldlM hs).trans (hsettled ▸ h'.after ts)

theorem Reads.tokens_eq (h : Reads cs ts) : tokens cs = (fun _ => ts) <$> checked ts := by
  rw [tokens]
  rcases h.outcome with ⟨fault, hc, hl⟩ | ⟨⟨done, phase⟩, hc, hl, hsettled⟩
  · rw [hc, hl]
    rfl
  · rw [hc, hl]
    have hdone := congrArg Lexer.done hsettled
    cases phase with
    | quoted => cases congrArg Lexer.phase hsettled
    | _ => exact congrArg Except.ok hdone

end Append

/-! ### Tokens in quotes -/

theorem foldlM_doubled (q : Quote) (cs read body : List Char) :
    (Render.doubled q.char cs).foldlM Lexer.feed ⟨[], .quoted q read body⟩ =
      if '\x00' ∈ cs then
        .error (.unrecognizedToken (String.ofList
          (read ++ (Render.doubled q.char cs).takeWhile (· != '\x00'))))
      else .ok ⟨[], .quoted q (read ++ Render.doubled q.char cs) (body ++ cs)⟩ := by
  induction cs generalizing read body with
  | nil => simp [Render.doubled, pure, Except.pure]
  | cons c rest ih =>
    have hcons : Render.doubled q.char (c :: rest) =
        (if c = q.char then [c, c] else [c]) ++ Render.doubled q.char rest := rfl
    rw [hcons]
    by_cases hnul : c = '\x00'
    · subst hnul
      simp [Lexer.feed, bind, Except.bind]
    · by_cases hc : c = q.char
      · subst hc
        simp [Lexer.feed, bind, Except.bind, ih]
      · simp [Lexer.feed, bind, Except.bind, ih, hc, hnul, Ne.symm hnul]

theorem mem_doubled {quote c : Char} {cs : List Char} : c ∈ Render.doubled quote cs ↔ c ∈ cs := by
  simp only [Render.doubled, List.mem_flatMap]
  constructor
  · rintro ⟨d, hd, hc⟩
    split at hc <;> simp_all
  · exact fun hc => ⟨c, hc, by split <;> simp⟩

theorem cut?_written (q : Quote) (s : String) :
    Database.cut? (q.written s) =
      if '\x00' ∈ s.toList then
        some (String.ofList (q.char :: (Render.doubled q.char s.toList).takeWhile (· != '\x00')))
      else none := by
  have hmem : '\x00' ∈ q.written s ↔ '\x00' ∈ s.toList := by
    simp [Quote.written, mem_doubled]
  simp only [Database.cut?, List.contains_iff_mem, hmem]
  split
  · rename_i h
    have hnul : '\x00' ∈ Render.doubled q.char s.toList := mem_doubled.mpr h
    have hlen : ((Render.doubled q.char s.toList).takeWhile (· != '\x00')).length ≠
        (Render.doubled q.char s.toList).length := by
      intro hl
      rw [← (List.takeWhile_prefix _).eq_of_length hl] at hnul
      simpa using List.all_eq_true.mp List.all_takeWhile _ hnul
    simp [Quote.written, List.takeWhile_append, hlen]
  · rfl

theorem reads_written (q : Quote) (s : String) : Reads (q.written s) [.quoted q s] := by
  have hstart : Lexer.start [] q.char = ⟨[], .quoted q [q.char] []⟩ := by cases q <;> rfl
  rw [Reads, Quote.written, List.cons_append, List.foldlM_cons]
  simp only [Lexer.feed, hstart, bind, Except.bind]
  rw [List.foldlM_append, foldlM_doubled]
  simp only [checked, List.findSome?_singleton, Token.cut?, cut?_written]
  split
  · rfl
  · simp [Lexer.feed, Lexer.settled, bind, Except.bind, pure, Except.pure, Functor.map, Except.map]

/-! ### Names and values -/

theorem reads_name (s : String) : Reads (Render.name s) [.quoted .double s] := reads_written .double s

theorem foldlM_word (read : List Char) {w : List Char} (h : ∀ c ∈ w, isWord c) :
    w.foldlM Lexer.feed ⟨[], .word read⟩ = .ok ⟨[], .word (read ++ w)⟩ := by
  induction w generalizing read with
  | nil => simp [pure, Except.pure]
  | cons c rest ih =>
    obtain ⟨hc, hrest⟩ := List.forall_mem_cons.mp h
    simp [Lexer.feed, hc, bind, Except.bind, ih _ hrest]

theorem ne_of_isWord {c e : Char} (h : isWord c) (he : isWord e = false) : c ≠ e := by
  rintro rfl
  cases he.symm.trans h

theorem isBlank_of_isWord {c : Char} (h : isWord c) : isBlank c = false := by
  simp [isBlank, ne_of_isWord h (e := ' ') (by decide), ne_of_isWord h (e := '\t') (by decide),
    ne_of_isWord h (e := '\n') (by decide), ne_of_isWord h (e := '\x0c') (by decide),
    ne_of_isWord h (e := '\r') (by decide)]

theorem start_word {c : Char} (h : isWord c) : Lexer.start [] c = ⟨[], .word [c]⟩ := by
  rw [Lexer.start, if_neg (ne_of_isWord h (by decide)), if_neg (by simp [isBlank_of_isWord h]),
    if_neg (ne_of_isWord h (by decide)), if_neg (ne_of_isWord h (by decide)), if_pos h]

theorem reads_word {w : List Char} (hne : w ≠ []) (h : ∀ c ∈ w, isWord c) :
    Reads w [.word (String.ofList w)] := by
  obtain ⟨c, rest, rfl⟩ := List.exists_cons_of_ne_nil hne
  obtain ⟨hc, hrest⟩ := List.forall_mem_cons.mp h
  rw [Reads, List.foldlM_cons]
  simp only [Lexer.feed, start_word hc, bind, Except.bind]
  rw [foldlM_word [c] hrest]
  rfl

/-- The tokens of a value. -/
def cellTokens : Cell → List Token
  | .int n =>
    let digits := .word (toString n.toInt.natAbs)
    if n.toInt < 0 then [.symbol '-', digits] else [digits]
  | .text s => [.quoted .single s]
  | .null => [.word "NULL"]

theorem isWord_toString (n : Nat) : ∀ c ∈ (toString n).toList, isWord c := by
  intro c hc
  rw [Nat.toString_eq_repr, Nat.toList_repr] at hc
  simp [isWord, Char.isAlphanum, Nat.isDigit_of_mem_toDigits (by decide) (by decide) hc]

theorem toString_ne_nil (n : Nat) : (toString n).toList ≠ [] := by
  rw [Nat.toString_eq_repr, Nat.toList_repr]
  exact Nat.toDigits_ne_nil

theorem reads_digits (n : Nat) : Reads (toString n).toList [.word (toString n)] := by
  have h := reads_word (toString_ne_nil n) (isWord_toString n)
  rwa [String.ofList_toList] at h

theorem reads_cell (v : Cell) : Reads (Render.cell .sqlite v) (cellTokens v) := by
  cases v with
  | int n =>
    have hminus : Passes ['-'] [.symbol '-'] := rfl
    simp only [Render.cell, cellTokens, toString_eq]
    split
    · exact hminus.append rfl (reads_digits _)
    · exact reads_digits _
  | text s => exact reads_written .single s
  | null => rfl

end EventIntake.Sql.Reading
