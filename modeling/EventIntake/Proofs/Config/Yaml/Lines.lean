import EventIntake.Config.Yaml.Document
import EventIntake.Proofs.Config.Merge
import Mathlib.Data.List.TakeWhile

/-! Texts that set one value, with a line for each key on the way to it. -/
namespace EventIntake.Config.Yaml

/-! ### Keys of words -/

def isWordChar (c : Char) : Bool := c.isAlpha || c == '_'

theorem ne_of_isWordChar {c d : Char} (hc : isWordChar c = true) (hd : isWordChar d = false) : c ≠ d := by
  rintro rfl
  exact Bool.false_ne_true (hd.symm.trans hc)

theorem not_mem_of_isWordChar {c : Char} (hc : isWordChar c = true) {cs : List Char}
    (hcs : (cs.all fun d => !isWordChar d) = true) : c ∉ cs := fun hmem =>
  ne_of_isWordChar hc (Bool.not_eq_true' _ ▸ List.all_eq_true.mp hcs c hmem) rfl

/-- A key that is one word. -/
structure IsWord (key : String) : Prop where
  allWord : key.toList.all isWordChar = true
  nonempty : key ≠ ""
  /-- It spells nothing else. -/
  text : Scalar.ofPlain key = .text key

instance decidableIsWord (key : String) : Decidable (IsWord key) :=
  decidable_of_iff (key.toList.all isWordChar = true ∧ key ≠ "" ∧ Scalar.ofPlain key = .text key)
    ⟨fun ⟨hall, hnonempty, htext⟩ => ⟨hall, hnonempty, htext⟩, fun h => ⟨h.allWord, h.nonempty, h.text⟩⟩

theorem IsWord.chars {key : String} (h : IsWord key) : ∀ c ∈ key.toList, isWordChar c = true :=
  List.all_eq_true.mp h.allWord

theorem IsWord.opens {key : String} (h : IsWord key) : ∃ c cs, key.toList = c :: cs ∧ isWordChar c = true := by
  cases hcs : key.toList with
  | nil => exact absurd (String.toList_eq_nil_iff.mp hcs) h.nonempty
  | cons c cs => exact ⟨c, cs, rfl, h.chars c (hcs ▸ .head _)⟩

section Opening
variable {c : Char} {cs : List Char} {column : Nat} (h : isWordChar c = true)
include h

theorem isBlank_word : isBlank c = false := by
  simp [isBlank, ne_of_isWordChar h (d := ' ') rfl, ne_of_isWordChar h (d := '\t') rfl]

theorem skipBlanks_word : skipBlanks column (c :: cs) = ⟨column, c :: cs⟩ := by
  simp [skipBlanks, isBlank_word h]

theorem skip_spaces (n : Nat) :
    skipFrom false true column (List.replicate n ' ' ++ c :: cs) = ⟨column + n, c :: cs⟩ := by
  induction n generalizing column with
  | zero =>
    simp [skipFrom, ne_of_isWordChar h (d := '\n') rfl, ne_of_isWordChar h (d := '#') rfl, isBlank_word h]
  | succ n ih =>
    have hspace : skipFrom false true column (' ' :: (List.replicate n ' ' ++ c :: cs)) =
        skipFrom false true (column + 1) (List.replicate n ' ' ++ c :: cs) := rfl
    rw [List.replicate_succ, List.cons_append, hspace, ih, Nat.add_right_comm, Nat.add_assoc]

theorem skip_word : skip ⟨column, c :: cs⟩ = ⟨column, c :: cs⟩ := by
  simp [skip, skipFrom, ne_of_isWordChar h (d := '\n') rfl, ne_of_isWordChar h (d := '#') rfl, isBlank_word h]

theorem atMark_word {mark : Char} (hmark : isWordChar mark = false) : atMark mark ⟨column, c :: cs⟩ = false := by
  simp [atMark, ne_of_isWordChar h hmark]

theorem atMarker_word : atMarker ⟨column, c :: cs⟩ = false := by
  rw [atMarker]
  split
  · rename_i heq
    cases heq
    have hdash := ne_of_isWordChar h (d := '-') rfl
    have hpoint := ne_of_isWordChar h (d := '.') rfl
    simp [hdash, hpoint]
  · simp

theorem startsPlain_word : startsPlain false (c :: cs) = true := by
  have hmark : isFlowMark c = false := by
    simp [isFlowMark, ne_of_isWordChar h (d := ',') rfl, ne_of_isWordChar h (d := '[') rfl,
      ne_of_isWordChar h (d := ']') rfl, ne_of_isWordChar h (d := '{') rfl, ne_of_isWordChar h (d := '}') rfl]
  have hsign : (c == '-' || c == '?' || c == ':') = false := by
    simp [ne_of_isWordChar h (d := '-') rfl, ne_of_isWordChar h (d := '?') rfl, ne_of_isWordChar h (d := ':') rfl]
  have hspecial : "\n#&*!|>'\"%@`".toList.contains c = false := by
    rw [List.contains_eq_mem, decide_eq_false_iff_not]
    exact not_mem_of_isWordChar h (by decide)
  rw [startsPlain, hsign, hmark, isBlank_word h, hspecial]
  rfl

theorem read_word : Properties.read ⟨column, c :: cs⟩ = some ({}, ⟨column, c :: cs⟩) := by
  simp [Properties.read, Properties.readFrom, skipBlanks_word h, ne_of_isWordChar h (d := '&') rfl,
    ne_of_isWordChar h (d := '!') rfl]

end Opening

theorem plainLine_word {key rest : List Char} (h : ∀ c ∈ key, isWordChar c = true) (hrest : gapNext rest = true)
    (previous : Char) : plainLine false previous (key ++ ':' :: rest) = (key, ':' :: rest) := by
  induction key generalizing previous with
  | nil => simp [plainLine, endsKey, hrest]
  | cons c key ih =>
    obtain ⟨hc, hkey⟩ := List.forall_mem_cons.mp h
    simp [plainLine, ne_of_isWordChar hc (d := '\n') rfl, ne_of_isWordChar hc (d := '#') rfl,
      ne_of_isWordChar hc (d := ':') rfl, ih hkey]

theorem trimEnd_word {key : List Char} (h : ∀ c ∈ key, isWordChar c = true) : trimEnd key = key := by
  have hlast : ∀ c ∈ key.reverse.head?, isBlank c = false := fun c hc =>
    isBlank_word (h c (List.mem_reverse.mp (List.mem_of_mem_head? hc)))
  have hdrop : key.reverse.dropWhile isBlank = key.reverse := by
    cases hrev : key.reverse with
    | nil => rfl
    | cons c cs => simp [hlast c (by simp [hrev])]
  rw [trimEnd, hdrop, List.reverse_reverse]

theorem key?_word {key : String} (h : IsWord key) {rest : List Char} (hrest : gapNext rest = true) (column : Nat) :
    key? ⟨column, key.toList ++ ':' :: rest⟩ = some (.plain key, ⟨column + key.toList.length + 1, rest⟩) := by
  obtain ⟨c, cs, hkey, hc⟩ := h.opens
  have hline := plainLine_word h.chars hrest 'x'
  have hcolon : isWordChar ':' = false := rfl
  have hscalar : keyScalar? ⟨column, key.toList ++ ':' :: rest⟩ =
      some (.plain key, ⟨column + key.toList.length, ':' :: rest⟩) := by
    have hcons : key.toList ++ ':' :: rest = c :: (cs ++ ':' :: rest) := by rw [hkey, List.cons_append]
    rw [hcons] at hline ⊢
    simp [keyScalar?, ne_of_isWordChar hc (d := '"') rfl, ne_of_isWordChar hc (d := '\'') rfl,
      ne_of_isWordChar hc (d := '*') rfl, atMark_word hc hcolon, startsPlain_word hc, hline,
      trimEnd_word h.chars]
  have hread : Properties.read ⟨column, key.toList ++ ':' :: rest⟩ =
      some ({}, ⟨column, key.toList ++ ':' :: rest⟩) := by
    rw [hkey]
    exact read_word hc
  have hblanks : skipBlanks column (key.toList ++ ':' :: rest) = ⟨column, key.toList ++ ':' :: rest⟩ := by
    rw [hkey]
    exact skipBlanks_word hc
  have hcolon : skipBlanks (column + key.toList.length) (':' :: rest) = ⟨column + key.toList.length, ':' :: rest⟩ := rfl
  simp [key?, hread, hblanks, hscalar, hcolon, atMark, hrest, Properties.apply, Cursor.next]

/-! ### Lines -/

/-- A table with one entry stands where a key of a word starts and nothing follows its value. -/
theorem block_word {key : String} (h : IsWord key) {rest : List Char} (hrest : gapNext rest = true) {c : Cursor}
    {column least : Nat} (hstart : skip c = ⟨column, key.toList ++ ':' :: rest⟩) (hcolumn : least ≤ column) {fuel : Nat}
    {t : Tree} {after : Cursor}
    (hvalue : value fuel (column + 1) column ⟨column + key.toList.length + 1, rest⟩ = some (t, after))
    (hafter : skip after = ⟨0, []⟩) (items : Nat) :
    block (fuel + 3) least items c = some (.table [(.plain key, t)], ⟨0, []⟩) := by
  obtain ⟨d, ds, hkey, hd⟩ := h.opens
  have hcons : key.toList ++ ':' :: rest = d :: (ds ++ ':' :: rest) := by rw [hkey, List.cons_append]
  have hmarker : atMarker ⟨column, key.toList ++ ':' :: rest⟩ = false := hcons ▸ atMarker_word hd
  have hitem : atItem ⟨column, key.toList ++ ':' :: rest⟩ = false := hcons ▸ atMark_word hd rfl
  have hquestion : atMark '?' ⟨column, key.toList ++ ':' :: rest⟩ = false := hcons ▸ atMark_word hd rfl
  have hlow : ¬ column < least := Nat.not_lt.mpr hcolumn
  have hempty : (key.toList ++ ':' :: rest).isEmpty = false := by rw [hcons]; rfl
  have hentry : blockEntry (fuel + 1) column ⟨column, key.toList ++ ':' :: rest⟩ = some ((.plain key, t), after) := by
    simp [blockEntry, hquestion, key?_word h hrest, hvalue]
  have hentries : blockEntries (fuel + 2) column [] ⟨column, key.toList ++ ':' :: rest⟩ =
      some (.table [(.plain key, t)], ⟨0, []⟩) := by
    simp [blockEntries, hentry, hafter]
  rw [block]
  simp only [hstart]
  simp [hempty, hmarker, hitem, hlow, key?_word h hrest, hentries]

/-- What follows the colon of a key: lines for further keys down to a value. -/
def below : Nat → List String → List Char → List Char
  | _, [], scalar => ' ' :: (scalar ++ ['\n'])
  | column, key :: keys, scalar =>
    '\n' :: (List.replicate column ' ' ++ (key.toList ++ ':' :: below (column + 2) keys scalar))

/-- The tables down to a node. -/
def nested : List String → Tree → Tree
  | [], t => t
  | key :: keys, t => .table [(.plain key, nested keys t)]

/-- A scalar on one line. -/
structure IsScalar (scalar : List Char) (t : Tree) : Prop where
  opens : ∃ c cs, scalar = c :: cs ∧ c ∉ [' ', '\t', '\n', '#', '&', '!']
  reads : ∀ least column, least ≤ column →
    ∃ column', onLine least ⟨column, scalar ++ ['\n']⟩ = some (t, ⟨column', ['\n']⟩)

theorem gapNext_below (column : Nat) (keys : List String) (scalar : List Char) :
    gapNext (below column keys scalar) = true := by
  cases keys <;> rfl

theorem value_scalar {scalar : List Char} {t : Tree} (h : IsScalar scalar t) {least column : Nat}
    (hcolumn : least ≤ column) (fuel items : Nat) :
    ∃ after, value (fuel + 1) least items ⟨column, ' ' :: (scalar ++ ['\n'])⟩ = some (t, after) ∧
      skip after = ⟨0, []⟩ := by
  obtain ⟨c, cs, rfl, hc⟩ := h.opens
  obtain ⟨column', hreads⟩ := h.reads least (column + 1) (Nat.le_succ_of_le hcolumn)
  simp only [List.mem_cons, List.not_mem_nil, or_false, not_or] at hc
  obtain ⟨hspace, htab, hend, hhash, hanchor, htag⟩ := hc
  have hblanks : skipBlanks column (' ' :: (c :: cs ++ ['\n'])) = ⟨column + 1, c :: cs ++ ['\n']⟩ := by
    simp [skipBlanks, isBlank, hspace, htab]
  have hread : Properties.read ⟨column, ' ' :: (c :: cs ++ ['\n'])⟩ =
      some ({}, ⟨column, ' ' :: (c :: cs ++ ['\n'])⟩) := by
    simp only [Properties.read, Properties.readFrom, hblanks]
    simp [hanchor, htag]
  have hdone : lineDone ⟨column, ' ' :: (c :: cs ++ ['\n'])⟩ = false := by
    simp only [lineDone, hblanks]
    simp [hend, hhash]
  refine ⟨⟨column', ['\n']⟩, ?_, rfl⟩
  simp only [value, hread, hdone, hblanks, hreads, Properties.apply, Option.bind_eq_bind, Option.bind_some,
    Bool.false_eq_true, if_false]

/-- Lines are read as the tables they spell. The induction is on the keys: each takes a block, its entries and one entry
before its value. -/
theorem value_below {keys : List String} (hkeys : ∀ key ∈ keys, IsWord key) {scalar : List Char} {t : Tree}
    (h : IsScalar scalar t) {fuel least column start : Nat} (hfuel : 4 * keys.length < fuel) (hcolumn : least ≤ column)
    (hstart : least ≤ start) (items : Nat) :
    ∃ after, value fuel least items ⟨start, below column keys scalar⟩ = some (nested keys t, after) ∧
      skip after = ⟨0, []⟩ := by
  induction keys generalizing fuel least column start items with
  | nil =>
    obtain ⟨fuel, rfl⟩ := Nat.exists_eq_add_one_of_ne_zero (Nat.ne_of_gt hfuel)
    exact value_scalar h hstart fuel items
  | cons key keys ih =>
    obtain ⟨hkey, hrest⟩ := List.forall_mem_cons.mp hkeys
    obtain ⟨fuel, rfl⟩ : ∃ n, fuel = n + 4 := ⟨fuel - 4, by rw [List.length_cons] at hfuel; omega⟩
    have hless : 4 * keys.length < fuel := by
      rw [List.length_cons] at hfuel
      omega
    obtain ⟨after, hvalue, hafter⟩ : ∃ after, value fuel (column + 1) column
          ⟨column + key.toList.length + 1, below (column + 2) keys scalar⟩ = some (nested keys t, after) ∧
        skip after = ⟨0, []⟩ := ih hrest hless (by omega) (by omega) column
    obtain ⟨c, cs, hcs, hc⟩ := hkey.opens
    have hnext : below column (key :: keys) scalar =
      '\n' :: (List.replicate column ' ' ++ (key.toList ++ ':' :: below (column + 2) keys scalar)) := rfl
    have hread : Properties.read ⟨start, below column (key :: keys) scalar⟩ =
        some ({}, ⟨start, below column (key :: keys) scalar⟩) := rfl
    have hdone : lineDone ⟨start, below column (key :: keys) scalar⟩ = true := rfl
    have hskip : skip ⟨start, below column (key :: keys) scalar⟩ =
        ⟨column, key.toList ++ ':' :: below (column + 2) keys scalar⟩ := by
      have hspaces : skipFrom false true 0
          (List.replicate column ' ' ++ c :: (cs ++ ':' :: below (column + 2) keys scalar)) =
            ⟨0 + column, c :: (cs ++ ':' :: below (column + 2) keys scalar)⟩ := skip_spaces hc column
      rw [Nat.zero_add, ← List.cons_append, ← hcs] at hspaces
      rw [skip, hnext, skipFrom, if_pos rfl, hspaces]
    refine ⟨⟨0, []⟩, ?_, rfl⟩
    have hblock := block_word hkey (gapNext_below _ keys scalar) hskip hcolumn hvalue hafter items
    simp [value, hread, hdone, hblock, Properties.apply, nested]

/-! ### Texts -/

/-- The text that sets a value below some keys. -/
def setting (keys : List String) (scalar : List Char) : String := String.ofList ((below 0 keys scalar).drop 1)

/-- Characters that a text keeps as they are. -/
def isOrdinary (c : Char) : Bool := c.toNat != 0 && c != '\r'

theorem isOrdinary_word {c : Char} (h : isWordChar c = true) : isOrdinary c = true := by
  have hnull : c.toNat ≠ 0 := by
    intro hzero
    have hc : c = Char.ofNat 0 := by rw [← hzero, Char.ofNat_toNat]
    exact ne_of_isWordChar h (d := Char.ofNat 0) rfl hc
  simp [isOrdinary, hnull, ne_of_isWordChar h (d := '\r') rfl]

theorem normalized_of_ordinary {cs : List Char} (h : ∀ c ∈ cs, isOrdinary c = true) : normalized cs = cs := by
  induction cs with
  | nil => rfl
  | cons c cs ih =>
    obtain ⟨hc, hcs⟩ := List.forall_mem_cons.mp h
    have hreturn : c ≠ '\r' := by
      rintro rfl
      exact Bool.false_ne_true hc
    rw [normalized, ih hcs]
    · exact fun _ hr => absurd hr hreturn
    · exact hreturn

theorem ordinary_below {keys : List String} (hkeys : ∀ key ∈ keys, IsWord key) {scalar : List Char}
    (h : ∀ c ∈ scalar, isOrdinary c = true) (column : Nat) : ∀ c ∈ below column keys scalar, isOrdinary c = true := by
  induction keys generalizing column with
  | nil => simpa [below, or_imp, forall_and, isOrdinary] using h
  | cons key keys ih =>
    obtain ⟨hkey, hrest⟩ := List.forall_mem_cons.mp hkeys
    have hspaces : ∀ c ∈ List.replicate column ' ', isOrdinary c = true := by simp [isOrdinary]
    have hword : ∀ c ∈ key.toList, isOrdinary c = true := fun c hc => isOrdinary_word (hkey.chars c hc)
    have hnext : ∀ c ∈ ':' :: below (column + 2) keys scalar, isOrdinary c = true :=
      List.forall_mem_cons.mpr ⟨rfl, ih hrest _⟩
    exact List.forall_mem_cons.mpr
      ⟨rfl, List.forall_mem_append.mpr ⟨hspaces, List.forall_mem_append.mpr ⟨hword, hnext⟩⟩⟩

theorem documents_eq {s : String} {c : Char} {cs : List Char} (hs : s.toList = c :: cs) (hc : isWordChar c = true)
    (h : ∀ d ∈ s.toList, isOrdinary d = true) :
    documents s = documentsFrom (s.toList.length + 1) .fresh ⟨0, s.toList⟩ := by
  have hwhole : s.toList.takeWhile (fun d => d.toNat != 0) = s.toList :=
    List.takeWhile_eq_self_iff.mpr fun d hd => (Bool.and_eq_true_iff.mp (h d hd)).1
  rw [documents]
  split
  · rename_i heq
    exact absurd (List.cons.inj (hs.symm.trans heq)).1 (ne_of_isWordChar hc rfl)
  · simp only [hwhole, normalized_of_ordinary h]

theorem length_lt_below (column : Nat) (keys : List String) (scalar : List Char) :
    keys.length < (below column keys scalar).length := by
  induction keys generalizing column with
  | nil => exact Nat.zero_lt_succ _
  | cons key keys ih =>
    have hrest := ih (column + 2)
    simp [below]
    omega

theorem documents_setting {key : String} (hkey : IsWord key) {keys : List String} (hkeys : ∀ key ∈ keys, IsWord key)
    {scalar : List Char} {t : Tree} (h : IsScalar scalar t) (hordinary : ∀ c ∈ scalar, isOrdinary c = true) :
    documents (setting (key :: keys) scalar) = some [nested (key :: keys) t] := by
  obtain ⟨c, cs, hcs, hc⟩ := hkey.opens
  have htext : (setting (key :: keys) scalar).toList = key.toList ++ ':' :: below 2 keys scalar := String.toList_ofList
  have hcons : key.toList ++ ':' :: below 2 keys scalar = c :: (cs ++ ':' :: below 2 keys scalar) := by
    rw [hcs, List.cons_append]
  have hall : ∀ d ∈ (setting (key :: keys) scalar).toList, isOrdinary d = true := by
    rw [htext]
    exact List.forall_mem_append.mpr ⟨fun d hd => isOrdinary_word (hkey.chars d hd),
      List.forall_mem_cons.mpr ⟨rfl, ordinary_below hkeys hordinary 2⟩⟩
  obtain ⟨size, hsize, hfuel⟩ : ∃ size, 4 * (key.toList ++ ':' :: below 2 keys scalar).length + 8 = size + 3 ∧
      4 * keys.length < size := by
    refine ⟨4 * (key.toList ++ ':' :: below 2 keys scalar).length + 5, rfl, ?_⟩
    have hlength := length_lt_below 2 keys scalar
    simp
    omega
  have hstart : skip ⟨0, key.toList ++ ':' :: below 2 keys scalar⟩ = ⟨0, key.toList ++ ':' :: below 2 keys scalar⟩ :=
    hcons ▸ skip_word hc
  obtain ⟨after, hvalue, hafter⟩ : ∃ after, value size (0 + 1) 0 ⟨0 + key.toList.length + 1, below 2 keys scalar⟩ =
      some (nested keys t, after) ∧ skip after = ⟨0, []⟩ := value_below hkeys h hfuel (by omega) (by omega) 0
  have hblock := block_word hkey (gapNext_below 2 keys scalar) hstart (Nat.le_refl 0) hvalue hafter 0
  rw [← hsize] at hblock
  rw [documents_eq (htext.trans hcons) hc hall, htext, documentsFrom]
  have hmarker : atMarker ⟨0, key.toList ++ ':' :: below 2 keys scalar⟩ = false := hcons ▸ atMarker_word hc
  have hpercent : c ≠ '%' := ne_of_isWordChar hc rfl
  have hrest : documentsFrom (key.toList ++ ':' :: below 2 keys scalar).length .ended ⟨0, []⟩ = some [] := by
    rw [hcons]
    rfl
  have hskip : skip ⟨0, []⟩ = ⟨0, []⟩ := rfl
  simp only [hstart, hblock, hmarker]
  split
  · rename_i heq
    exact absurd (hcons.symm.trans heq) (List.cons_ne_nil _ _)
  · rename_i d ds heq
    obtain ⟨rfl, rfl⟩ := List.cons.inj (hcons.symm.trans heq)
    simp only [hpercent, hskip, false_and, Bool.false_eq_true, if_false, reduceIte, Option.bind_eq_bind,
      Option.bind_some, hrest]
    simp [nested]

theorem node?_nested {keys : List String} (hkeys : ∀ key ∈ keys, IsWord key) {t : Tree} {n : Node}
    (hnode : ∀ names, t.node? names = some (n, names)) (names : Tree.Names) :
    ∃ m, (nested keys t).node? names = some (m, names) ∧ m.value? = n.value?.map (Value.nest keys) := by
  induction keys with
  | nil => exact ⟨n, hnode names, Option.map_id'.symm⟩
  | cons key keys ih =>
    obtain ⟨hkey, hrest⟩ := List.forall_mem_cons.mp hkeys
    obtain ⟨m, hm, hmv⟩ := ih hrest
    refine ⟨.table [(.text key, m)], ?_, ?_⟩
    · simp [nested, Tree.node?, Tree.entries?, Tree.addEntry?, hkey.text, hm]
    · cases hv : n.value? <;> simp [Node.value?, Node.entries?, hmv, hv, Value.nest, Sorted.insert]

/-- A scalar on one line whose setting is the given one, or that has none. -/
structure Spells (scalar : List Char) (v : Option Value) : Prop where
  ordinary : ∀ c ∈ scalar, isOrdinary c = true
  node : ∃ t n, IsScalar scalar t ∧ (∀ names, Tree.node? names t = some (n, names)) ∧ n.value? = v

/-- A text that sets a value is read as the tables down to it. -/
theorem settings?_setting {key : String} {keys : List String} (hkeys : ∀ k ∈ key :: keys, IsWord k)
    {scalar : List Char} {v : Option Value} (h : Spells scalar v) :
    settings? (setting (key :: keys) scalar) = v.map fun v => [(key, Value.nest keys v)] := by
  obtain ⟨t, n, hscalar, hnode, rfl⟩ := h.node
  obtain ⟨m, hm, hmv⟩ := node?_nested hkeys hnode []
  obtain ⟨hkey, hrest⟩ := List.forall_mem_cons.mp hkeys
  cases hv : n.value? <;> simp [settings?, documents_setting hkey hrest hscalar h.ordinary, hm, hmv, hv, Value.nest]

theorem spells_five : Spells "5".toList (some (.int 5)) :=
  ⟨List.all_eq_true.mp rfl, .plain "5", .scalar (.int 5),
    ⟨⟨'5', [], rfl, by decide⟩, fun _ column _ => ⟨column + 1, rfl⟩⟩, fun _ => rfl, rfl⟩

/-- Infinity is a number that is no setting. -/
theorem spells_infinity : Spells ".inf".toList none :=
  ⟨List.all_eq_true.mp rfl, .plain ".inf", .scalar (.real ".inf"),
    ⟨⟨'.', _, rfl, by decide⟩, fun _ column _ => ⟨column + 4, rfl⟩⟩, fun _ => rfl, rfl⟩

theorem spells_empty : Spells ['{', '}'] (some (.table [])) := by
  refine ⟨List.all_eq_true.mp rfl, .table [], .table [],
    ⟨⟨'{', ['}'], rfl, by decide⟩, fun least column h => ⟨column + 2, ?_⟩⟩, fun _ => rfl, rfl⟩
  have hskip : flowSkip? least ⟨column + 1, ['}', '\n']⟩ = some ⟨column + 1, ['}', '\n']⟩ :=
    if_pos (.inr (h.trans (Nat.le_add_right column 2)))
  have hentries : flowEntries 19 least [] ⟨column + 1, ['}', '\n']⟩ = some (.table [], ⟨column + 2, ['\n']⟩) := by
    rw [flowEntries, hskip]
    rfl
  have hline : onLine least ⟨column, ['{', '}'] ++ ['\n']⟩ =
      (flowEntries 19 least [] ⟨column + 1, ['}', '\n']⟩).bind fun read =>
        if lineDone read.2 then some read else none := rfl
  rw [hline, hentries]
  rfl

end EventIntake.Config.Yaml
