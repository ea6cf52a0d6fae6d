import EventIntake.Json.Raw
import EventIntake.Proofs.Json.Grammar

/-! Every JSON value is passed over whole, and its text kept as it is. -/
namespace EventIntake.Json.Raw
open Decimal Grammar

/-- What is left to do inside brackets once a value is complete. -/
def resume (frames : List Frame) (rest : List Char) : Except Fault (List Char) :=
  if frames.isEmpty then .ok rest else scan .separator frames rest

/-! ### Single characters -/

theorem scan_more {phase phase' : Phase} {frames frames' : List Frame} {c : Char} {cs : List Char}
    (h : advance phase frames c cs = .ok (.more phase' frames')) :
    scan phase frames (c :: cs) = scan phase' frames' cs := by
  simp [scan, h]

theorem scan_close {phase : Phase} {frames outer : List Frame} {c : Char} {cs : List Char}
    (h : advance phase frames c cs = .ok (close outer)) : scan phase frames (c :: cs) = resume outer cs := by
  cases outer <;> simp [scan, h, close, resume]

/-- Characters that lead nowhere else are passed over. -/
theorem scan_stay {phase : Phase} {frames : List Frame} {cs : List Char}
    (h : ∀ c ∈ cs, ∀ rest, advance phase frames c rest = .ok (.more phase frames)) (rest : List Char) :
    scan phase frames (cs ++ rest) = scan phase frames rest := by
  induction cs with
  | nil => rfl
  | cons c cs ih =>
    obtain ⟨hc, hcs⟩ := List.forall_mem_cons.mp h
    rw [List.cons_append, scan_more (hc _), ih hcs]

theorem scan_blanks {phase : Phase} {frames : List Frame} {blanks : List Char} (hb : Blanks blanks)
    (h : ∀ c, isBlank c = true → ∀ rest, advance phase frames c rest = .ok (.more phase frames))
    (rest : List Char) : scan phase frames (blanks ++ rest) = scan phase frames rest :=
  scan_stay (fun c hc => h c (hb c hc)) rest

theorem advance_separator_blank (frame : Frame) (outer : List Frame) (c : Char) (h : isBlank c = true)
    (rest : List Char) : advance .separator (frame :: outer) c rest = .ok (.more .separator (frame :: outer)) := by
  cases frame <;> simp [advance, separate, h]

theorem scan_separator_blanks {blanks : List Char} (hb : Blanks blanks) (frame : Frame) (outer : List Frame)
    (rest : List Char) :
    scan .separator (frame :: outer) (blanks ++ rest) = scan .separator (frame :: outer) rest :=
  scan_blanks hb (advance_separator_blank frame outer) rest

/-! ### Texts -/

theorem HexUnit.scan {ds : List Char} {n : Nat} (h : HexUnit ds n) (isKey : Bool) (frames : List Frame)
    (rest : List Char) : scan (.hex isKey 4) frames (ds ++ rest) = Raw.scan (.inText isKey) frames rest := by
  obtain ⟨ha, hb, hc, hd⟩ := h
  simp [Raw.scan, advance, ha, hb, hc, hd]

theorem scan_body {body : List Char} (h : Body body) (isKey : Bool) (frames : List Frame) (rest : List Char) :
    scan (.inText isKey) frames (body ++ rest) = scan (.inText isKey) frames rest := by
  induction h with
  | nil => rfl
  | plain hq hb hc _ ih =>
    rw [List.cons_append, scan_more, ih]
    simp [advance, hq, hb, hc]
  | @short e body he _ ih =>
    have hu : e ≠ 'u' := by
      rintro rfl
      cases he
    rw [List.cons_append, List.cons_append, scan_more rfl, scan_more, ih]
    simp [advance, hu, he]
  | unit hds _ ih =>
    rw [List.cons_append, List.cons_append, List.append_assoc, scan_more rfl, scan_more, HexUnit.scan hds, ih]
    simp [advance, hds.fourBytes]

/-! ### Numbers -/

/-- Where a number is complete. -/
def Complete (phase : Phase) : Prop := phase = .zero ∨ phase = .whole ∨ phase = .fraction ∨ phase = .power

theorem scan_complete {phase : Phase} (hp : Complete phase) (frames : List Frame) {rest : List Char}
    (h : Apart rest) : scan phase frames rest = resume frames rest := by
  cases rest with
  | nil => rcases hp with rfl | rfl | rfl | rfl <;> cases frames <;> rfl
  | cons c cs =>
    obtain ⟨hc, hpoint, hsmall, hlarge⟩ := h.not_continuing
    have hadvance : advance phase frames c cs = separate frames c := by
      rcases hp with rfl | rfl | rfl | rfl <;> simp [advance, hc, hpoint, hsmall, hlarge]
    cases frames with
    | nil => simp [scan, hadvance, separate, resume]
    | cons frame outer =>
      rw [scan, hadvance, resume, if_neg (by simp), scan]
      rfl

theorem scan_digits {phase : Phase} {frames : List Frame} {ds : List Char} (hds : ∀ c ∈ ds, isDigit c = true)
    (hp : ∀ c, isDigit c = true → ∀ rest, advance phase frames c rest = .ok (.more phase frames))
    (rest : List Char) : scan phase frames (ds ++ rest) = scan phase frames rest :=
  scan_stay (fun c hc => hp c (hds c hc)) rest

theorem scan_exponent {phase : Phase} (hp : phase = .zero ∨ phase = .whole ∨ phase = .fraction)
    (frames : List Frame) {exponent : List Char} (he : Exponent exponent) {rest : List Char} (h : Apart rest) :
    scan phase frames (exponent ++ rest) = resume frames rest := by
  rcases he with rfl | ⟨mark, sign, ds, hmark, hsign, ⟨hne, hds⟩, rfl⟩
  · exact scan_complete (by rcases hp with rfl | rfl | rfl <;> simp [Complete]) frames h
  · obtain ⟨d, ds, rfl⟩ := List.exists_cons_of_ne_nil hne
    obtain ⟨hd, hds⟩ := List.forall_mem_cons.mp hds
    have hpower : scan .power frames (ds ++ rest) = resume frames rest := by
      rw [scan_digits hds (fun c hc _ => by simp [advance, hc]), scan_complete (by simp [Complete]) frames h]
    have hmarked : advance phase frames mark (sign ++ d :: ds ++ rest) = .ok (.more .exponent frames) := by
      rcases hp with rfl | rfl | rfl <;> rcases hmark with rfl | rfl <;> simp [advance, isDigit]
    have hfirst : d ≠ '+' ∧ d ≠ '-' := by
      constructor <;> rintro rfl <;> exact absurd hd (by decide)
    rw [List.cons_append, scan_more hmarked]
    rcases hsign with rfl | rfl | rfl
    · rw [List.nil_append, List.cons_append, scan_more, hpower]
      simp [advance, hd, hfirst]
    · rw [List.singleton_append, List.cons_append, scan_more rfl, List.cons_append, scan_more, hpower]
      simp [advance, hd]
    · rw [List.singleton_append, List.cons_append, scan_more rfl, List.cons_append, scan_more, hpower]
      simp [advance, hd]

theorem scan_fraction {phase : Phase} (hp : phase = .zero ∨ phase = .whole) (frames : List Frame)
    {fraction exponent : List Char} (hf : Fraction fraction) (he : Exponent exponent) {rest : List Char}
    (h : Apart rest) : scan phase frames (fraction ++ (exponent ++ rest)) = resume frames rest := by
  rcases hf with rfl | ⟨ds, ⟨hne, hds⟩, rfl⟩
  · exact scan_exponent (by rcases hp with rfl | rfl <;> simp) frames he h
  · obtain ⟨d, ds, rfl⟩ := List.exists_cons_of_ne_nil hne
    obtain ⟨hd, hds⟩ := List.forall_mem_cons.mp hds
    have hpoint (cs : List Char) : advance phase frames '.' cs = .ok (.more .point frames) := by
      rcases hp with rfl | rfl <;> simp [advance, isDigit]
    have hfraction : scan .fraction frames (ds ++ (exponent ++ rest)) = resume frames rest := by
      rw [scan_digits hds (fun c hc _ => by simp [advance, hc]), scan_exponent (by simp) frames he h]
    rw [List.cons_append, scan_more (hpoint _), List.cons_append, scan_more, hfraction]
    simp [advance, hd]

/-- A digit where a value or the digits of a number are to start. -/
theorem scan_whole {phase : Phase} {frames : List Frame} {whole : List Char} (hw : Whole whole)
    (hzero : ∀ rest, advance phase frames '0' rest = .ok (.more .zero frames))
    (hdigit : ∀ c, isDigit c = true → c ≠ '0' → ∀ rest, advance phase frames c rest = .ok (.more .whole frames))
    (rest : List Char) :
    ∃ next, (next = .zero ∨ next = .whole) ∧ scan phase frames (whole ++ rest) = scan next frames rest := by
  rcases hw with rfl | ⟨⟨hne, hds⟩, hhead⟩
  · exact ⟨.zero, .inl rfl, scan_more (hzero rest)⟩
  · obtain ⟨d, ds, rfl⟩ := List.exists_cons_of_ne_nil hne
    obtain ⟨hd, hds⟩ := List.forall_mem_cons.mp hds
    refine ⟨.whole, .inr rfl, ?_⟩
    rw [List.cons_append, scan_more (hdigit d hd (by simpa using hhead) _),
      scan_digits hds (fun c hc _ => by simp [advance, hc])]

theorem advance_value_digit (frames : List Frame) {c : Char} (hc : isDigit c = true) (hzero : c ≠ '0')
    (rest : List Char) : advance .value frames c rest = .ok (.more .whole frames) := by
  have hne : c ≠ 'n' ∧ c ≠ 't' ∧ c ≠ 'f' ∧ c ≠ '"' ∧ c ≠ '-' := by
    refine ⟨?_, ?_, ?_, ?_, ?_⟩ <;> rintro rfl <;> exact absurd hc (by decide)
  obtain ⟨hn, ht, hf, hq, hm⟩ := hne
  simp [advance, startValue, isBlank_digit hc, hn, ht, hf, hq, hm, hzero, hc]

theorem scan_numeral {cs : List Char} (hn : Numeral cs) (frames : List Frame) {rest : List Char} (h : Apart rest) :
    scan .value frames (cs ++ rest) = resume frames rest := by
  obtain ⟨sign, whole, fraction, exponent, hsign, hwhole, hfraction, hexponent, rfl⟩ := hn
  simp only [List.append_assoc]
  rcases hsign with rfl | rfl
  · obtain ⟨next, hnext, he⟩ := scan_whole hwhole (fun _ => rfl)
      (fun c hc hz => advance_value_digit frames hc hz) (fraction ++ (exponent ++ rest))
    rw [List.nil_append, he, scan_fraction hnext frames hfraction hexponent h]
  · obtain ⟨next, hnext, he⟩ := @scan_whole .sign frames whole hwhole (fun _ => rfl)
      (fun c hc hz _ => by simp [advance, hc, hz]) (fraction ++ (exponent ++ rest))
    rw [List.singleton_append, scan_more rfl, he, scan_fraction hnext frames hfraction hexponent h]

/-! ### Values -/

theorem scan_quotedKey {key : List Char} (h : Padded (Quoted Body) key) {phase : Phase}
    (hp : phase = .key ∨ phase = .firstKey) (frames : List Frame) (rest : List Char) :
    scan phase frames (key ++ ':' :: rest) = scan .value frames rest := by
  obtain ⟨before, _, after, hbefore, ⟨body, hbody, rfl⟩, hafter, rfl⟩ := h
  have hblank : ∀ c, isBlank c = true → ∀ cs, advance phase frames c cs = .ok (.more phase frames) := by
    intro c hc cs
    rcases hp with rfl | rfl <;> simp [advance, hc]
  have hquote : ∀ cs, advance phase frames '"' cs = .ok (.more (.inText true) frames) := by
    intro cs
    rcases hp with rfl | rfl <;> rfl
  simp only [List.append_assoc, List.cons_append, List.nil_append]
  rw [scan_blanks hbefore hblank, scan_more (hquote _), scan_body hbody, scan_more rfl,
    scan_blanks hafter (fun c hc cs => by simp [advance, hc]), scan_more rfl]

/-- The first element is read like the others. -/
theorem scan_itemPhase {phase : Phase} (hp : phase = .value ∨ phase = .firstItem) {before value : List Char}
    (hb : Blanks before) (hv : Valid value) (frames : List Frame) (rest : List Char) :
    scan phase frames (before ++ (value ++ rest)) = scan .value frames (before ++ (value ++ rest)) := by
  rcases hp with rfl | rfl
  · rfl
  · obtain ⟨c, cs, rfl, hc, hbracket⟩ := hv.head
    rw [scan_blanks hb (fun c hc _ => by simp [advance, hc]), scan_blanks hb (fun c hc _ => by simp [advance, hc])]
    simp [scan, advance, hc, hbracket]

/-- A value is passed over, and so is what stands between brackets. -/
theorem scan_written {part : Part} {cs : List Char} (h : Written part cs) :
    match part with
    | .value => ∀ frames rest, Apart rest → scan .value frames (cs ++ rest) = resume frames rest
    | .items => ∀ outer rest, ∀ phase, phase = .value ∨ phase = .firstItem →
      scan phase (.list :: outer) (cs ++ ']' :: rest) = resume outer rest
    | .members => ∀ outer rest, ∀ phase, phase = .key ∨ phase = .firstKey →
      scan phase (.object :: outer) (cs ++ '}' :: rest) = resume outer rest := by
  have hvalue : ∀ {frames : List Frame}, ∀ c, isBlank c = true → ∀ rest,
      advance .value frames c rest = .ok (.more .value frames) := fun c hc _ => by simp [advance, hc]
  have hclose : ∀ {frame : Frame} {outer : List Frame} {after : List Char} (c : Char) (rest : List Char),
      Blanks after → advance .separator (frame :: outer) c rest = .ok (close outer) →
      resume (frame :: outer) (after ++ c :: rest) = resume outer rest := by
    intro frame outer after c rest ha hc
    rw [resume, if_neg (by simp), scan_separator_blanks ha, scan_close hc]
  have hcomma : ∀ {frame : Frame} {outer : List Frame} {after : List Char} {phase : Phase} (rest : List Char),
      Blanks after → advance .separator (frame :: outer) ',' rest = .ok (.more phase (frame :: outer)) →
      resume (frame :: outer) (after ++ ',' :: rest) = scan phase (frame :: outer) rest := by
    intro frame outer after phase rest ha hc
    rw [resume, if_neg (by simp), scan_separator_blanks ha, scan_more hc]
  have hapart : ∀ {after : List Char} {c : Char} (rest : List Char), Blanks after → c = ',' ∨ c = ']' ∨ c = '}' →
      Apart (after ++ c :: rest) := fun rest ha hc => ha.apart (apart_cons (.inr hc) rest)
  induction h with
  | null | true =>
    intro frames rest _
    exact (scan_more rfl).trans ((scan_more rfl).trans ((scan_more rfl).trans (scan_close rfl)))
  | false =>
    intro frames rest _
    exact (scan_more rfl).trans ((scan_more rfl).trans ((scan_more rfl).trans ((scan_more rfl).trans (scan_close rfl))))
  | number hn => exact fun frames rest h => scan_numeral hn frames h
  | text ht =>
    intro frames rest _
    obtain ⟨body, hbody, rfl⟩ := ht
    rw [List.cons_append, List.append_assoc, scan_more rfl, scan_body hbody]
    exact scan_close rfl
  | noItems hb =>
    intro frames rest _
    rw [List.cons_append, List.append_assoc, scan_more rfl, scan_blanks hb (fun c hc _ => by simp [advance, hc])]
    exact scan_close rfl
  | list _ ih =>
    intro frames rest _
    rw [List.cons_append, List.append_assoc, scan_more rfl]
    exact ih frames rest .firstItem (.inr rfl)
  | noMembers hb =>
    intro frames rest _
    rw [List.cons_append, List.append_assoc, scan_more rfl, scan_blanks hb (fun c hc _ => by simp [advance, hc])]
    exact scan_close rfl
  | object _ ih =>
    intro frames rest _
    rw [List.cons_append, List.append_assoc, scan_more rfl]
    exact ih frames rest .firstKey (.inr rfl)
  | item hb hv ha ih =>
    intro outer rest phase hp
    simp only [List.append_assoc]
    rw [scan_itemPhase hp hb hv, scan_blanks hb hvalue, ih _ _ (hapart _ ha (by simp))]
    exact hclose ']' rest ha rfl
  | items hb hv ha _ ihv ihr =>
    intro outer rest phase hp
    simp only [List.append_assoc, List.cons_append]
    rw [scan_itemPhase hp hb hv, scan_blanks hb hvalue, ihv _ _ (hapart _ ha (by simp)), hcomma _ ha rfl]
    exact ihr outer rest .value (.inl rfl)
  | member hk hb hv ha ih =>
    intro outer rest phase hp
    simp only [List.append_assoc, List.cons_append]
    rw [scan_quotedKey hk hp, scan_blanks hb hvalue, ih _ _ (hapart _ ha (by simp))]
    exact hclose '}' rest ha rfl
  | members hk hb hv ha _ ihv ihr =>
    intro outer rest phase hp
    simp only [List.append_assoc, List.cons_append]
    rw [scan_quotedKey hk hp, scan_blanks hb hvalue, ihv _ _ (hapart _ ha (by simp)), hcomma _ ha rfl]
    exact ihr outer rest .key (.inl rfl)

/-! ### Whole values -/

variable {cs rest : List Char}

theorem skip_valid {blanks : List Char} (hb : Blanks blanks) (h : Valid cs) (hrest : Apart rest) :
    skip (blanks ++ (cs ++ rest)) = .ok rest := by
  rw [skip, scan_blanks hb (fun c hc _ => by simp [advance, hc])]
  exact scan_written h [] rest hrest

/-- A value is kept as it is spelled. -/
theorem read_valid {blanks : List Char} (hb : Blanks blanks) (h : Valid cs) (hrest : Apart rest) :
    read (blanks ++ (cs ++ rest)) = .ok (String.ofList cs, rest) := by
  have hstart : skipBlank (blanks ++ (cs ++ rest)) = cs ++ rest := by
    obtain ⟨c, tail, rfl, hc, _⟩ := h.head
    rw [skipBlank_append hb, List.cons_append, skipBlank_cons hc]
  have hskip : skip (cs ++ rest) = .ok rest := skip_valid blanks_nil h hrest
  have htaken : (cs ++ rest).take ((cs ++ rest).length - rest.length) = cs := by simp
  simp only [read, hstart, hskip]
  exact congrArg (fun taken => Except.ok (String.ofList taken, rest)) htaken

end EventIntake.Json.Raw
