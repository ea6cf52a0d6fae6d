import EventIntake.Proofs.Json.Value

/-! What is read from a document: whole numbers fit a word, and the members of objects are sorted by key. -/
namespace EventIntake.Json
open Decimal

theorem map_ok {ε α β : Type} {f : α → β} {x : Except ε α} {b : β} : f <$> x = .ok b ↔ ∃ a, x = .ok a ∧ f a = b := by
  cases x <;> simp [Functor.map, Except.map]

/-! ### Numbers -/

theorem gather_lt {ds : List Char} {n : Nat} (h : n < UInt64.size) : (gather n ds).1 < UInt64.size := by
  induction ds generalizing n with
  | nil => exact h
  | cons d ds ih =>
    rw [gather]
    split
    · exact ih ‹_›
    · exact h

/-- Not a whole number. -/
def Number.IsReal (x : Number) : Prop := ∃ r, x = .real r

theorem isReal_realOf {negative : Bool} {significand : Nat} {exponent : Int} {x : Number}
    (h : realOf negative significand exponent = .ok x) : x.IsReal := by
  rw [realOf] at h
  split at h
  · cases h
    exact ⟨_, rfl⟩
  · cases h

theorem isReal_exponentPart {negative : Bool} {significand : Nat} {start : Int} {x : Number} {cs rest : List Char}
    (h : exponentPart negative significand start cs = .ok (x, rest)) : x.IsReal := by
  simp only [exponentPart] at h
  split at h
  · cases h
  · split at h
    · split at h
      · cases h
      · cases h
        exact ⟨_, rfl⟩
    · obtain ⟨n, hn, hx⟩ := bind_ok.mp h
      cases hx
      exact isReal_realOf hn

theorem isReal_exponentOrEnd {negative : Bool} {significand : Nat} {exponent : Int} {x : Number} {cs rest : List Char}
    (h : exponentOrEnd negative significand exponent cs = .ok (x, rest)) : x.IsReal := by
  rw [exponentOrEnd.eq_def] at h
  split at h
  · exact isReal_exponentPart h
  · exact isReal_exponentPart h
  · obtain ⟨n, hn, hx⟩ := bind_ok.mp h
    cases hx
    exact isReal_realOf hn

theorem isReal_fractionPart {negative : Bool} {significand start : Nat} {x : Number} {cs rest : List Char}
    (h : fractionPart negative significand start cs = .ok (x, rest)) : x.IsReal := by
  simp only [fractionPart] at h
  split at h
  · cases h
  · exact isReal_exponentOrEnd h

/-- A whole number of up to 64 bits. -/
def Number.Fits (x : Number) : Prop := ∀ n, x = .whole n → Int64.minValue.toInt ≤ n ∧ n < UInt64.size

theorem Number.IsReal.fits {x : Number} (h : x.IsReal) : x.Fits := by
  rintro n rfl
  obtain ⟨r, hr⟩ := h
  cases hr

theorem fits_wholeOf (negative : Bool) {significand : Nat} (h : significand < UInt64.size) :
    (unsigned.wholeOf negative significand).Fits := by
  have hmin : Int64.minValue.toInt = -9223372036854775808 := rfl
  have hsize : UInt64.size = 18446744073709551616 := rfl
  intro n hn
  rw [unsigned.wholeOf] at hn
  split at hn
  · cases hn
    omega
  · split at hn
    · cases hn
    · rename_i hsmall
      cases hn
      rw [signed, if_pos rfl] at hsmall
      omega

theorem fits_unsigned {negative : Bool} {x : Number} {cs rest : List Char}
    (h : unsigned negative cs = .ok (x, rest)) : x.Fits := by
  unfold unsigned at h
  split at h
  · cases h
  · split at h
    · cases h
    · -- The digits and what follows them are named, so that no case splits on a leading zero.
      extract_lets ds rest' at h
      clear_value ds rest'
      have hgather : (gather 0 ds).1 < UInt64.size := gather_lt (by decide)
      split at h
      rename_i significand left hds
      rw [hds] at hgather
      split at h
      · exact (isReal_fractionPart h).fits
      · split at h
        · cases h
        · split at h
          · exact (isReal_exponentOrEnd h).fits
          · cases h
            exact fits_wholeOf negative hgather
      · split at h
        · exact (isReal_exponentOrEnd h).fits
        · cases h
          exact fits_wholeOf negative hgather

theorem fits_number {x : Number} {cs rest : List Char} (h : number cs = .ok (x, rest)) : x.Fits := by
  rw [number.eq_def] at h
  split at h <;> exact fits_unsigned h

/-! ### Values -/

namespace Value

/-- What the reader that sorts makes of a text. -/
inductive Kept : Value → Prop
  | null : Kept .null
  | bool (b : Bool) : Kept (.bool b)
  | number {x : Number} : x.Fits → Kept (.number x)
  | text (s : String) : Kept (.text s)
  | list {vs : List Value} : (∀ v ∈ vs, Kept v) → Kept (.list vs)
  /-- Not all keys are the embedded one, since the key that is read first is not. -/
  | object {ms : List (String × Value)} :
      Sorted.Ascending ms → (∀ m ∈ ms, Kept m.2) → (ms ≠ [] → ∃ m ∈ ms, m.1 ≠ embeddedKey) → Kept (.object ms)

end Value

/-- What every element keeps holds after the last. -/
theorem items_keeps {σ : Type} {P : σ → Prop} {step : σ → Reader σ}
    (hstep : ∀ s cs s' rest, P s → step s cs = .ok (s', rest) → P s') {s s' : σ} {cs rest : List Char} (hs : P s)
    (h : items step s cs = .ok (s', rest)) : P s' := by
  have hupTo : ∀ fuel first s cs rest, P s → itemsUpTo step fuel first s cs = .ok (s', rest) → P s' := by
    intro fuel
    induction fuel with
    | zero => exact fun _ _ _ _ _ h => by cases h
    | succ fuel ih =>
      intro first s cs rest hs h
      obtain ⟨⟨more, cs⟩, _, h⟩ := bind_ok.mp h
      cases more with
      | false =>
        cases h
        exact hs
      | true =>
        obtain ⟨⟨s₁, cs₁⟩, hr, h⟩ := bind_ok.mp h
        exact ih false s₁ cs₁ rest (hstep s cs s₁ cs₁ hs hr) h
  obtain ⟨⟨s₁, cs₁⟩, hitems, h⟩ := bind_ok.mp h
  obtain ⟨_, _, h⟩ := bind_ok.mp h
  cases h
  exact hupTo _ _ _ _ _ hs hitems

namespace Value
variable {embedded : String → Except Fault Value}

/-- Members as the reader keeps them. -/
structure KeptMembers (ms : List (String × Value)) : Prop where
  sorted : Sorted.Ascending ms
  values : ∀ m ∈ ms, Kept m.2
  other : ∃ m ∈ ms, m.1 ≠ embeddedKey

theorem keeps_readItem {form : Form} {depth : Nat}
    (hread : ∀ {v cs rest}, read form depth cs = .ok (v, rest) → Kept v) (done : List Value) (cs : List Char)
    (done' : List Value) (rest : List Char) (hdone : ∀ v ∈ done, Kept v)
    (h : readItem form depth done cs = .ok (done', rest)) : ∀ v ∈ done', Kept v := by
  obtain ⟨⟨v, _⟩, hv, h⟩ := bind_ok.mp h
  cases h
  exact List.forall_mem_cons.mpr ⟨hread hv, hdone⟩

theorem keeps_readMember {depth : Nat}
    (hread : ∀ {v cs rest}, read (.sorted embedded) depth cs = .ok (v, rest) → Kept v) (kept : List (String × Value))
    (name : String) (cs : List Char) (kept' : List (String × Value)) (rest : List Char) (hkept : KeptMembers kept)
    (h : readMember (.sorted embedded) depth kept name cs = .ok (kept', rest)) : KeptMembers kept' := by
  obtain ⟨_, _, h⟩ := bind_ok.mp h
  obtain ⟨⟨v, _⟩, hv, h⟩ := bind_ok.mp h
  cases h
  obtain ⟨m, hm, hother⟩ := hkept.other
  refine ⟨hkept.sorted.insert name v, fun m hm => ?_, ?_⟩
  · rcases Sorted.mem_insert hm with rfl | hm
    · exact hread hv
    · exact hkept.values m hm
  · by_cases hname : m.1 = name
    · exact ⟨(name, v), hkept.sorted.mem_insert_iff.mpr (.inl rfl), hname ▸ hother⟩
    · exact ⟨m, hkept.sorted.mem_insert_iff.mpr (.inr ⟨hm, hname⟩), hother⟩

theorem kept_firstMember {depth : Nat}
    (hread : ∀ {v cs rest}, read (.sorted embedded) depth cs = .ok (v, rest) → Kept v) {name : String}
    (hname : (Form.sorted embedded).embedded? name = none) {cs rest : List Char} {kept : List (String × Value)}
    (h : readMember (.sorted embedded) depth [] name cs = .ok (kept, rest)) : KeptMembers kept := by
  obtain ⟨_, _, h⟩ := bind_ok.mp h
  obtain ⟨⟨v, _⟩, hv, h⟩ := bind_ok.mp h
  cases h
  have hother : name ≠ embeddedKey := by
    rintro rfl
    simp [Form.embedded?] at hname
  exact ⟨List.pairwise_singleton _ _, by simpa [Form.add, Sorted.insert] using hread hv,
    (name, v), .head _, hother⟩

theorem kept_map {α : Type} {x : Except Fault α} {f : α → Value × List Char} {v : Value} {rest : List Char}
    (hf : ∀ a, x = .ok a → Kept (f a).1) (h : f <$> x = .ok (v, rest)) : Kept v := by
  obtain ⟨a, ha, he⟩ := map_ok.mp h
  have hkept := hf a ha
  rwa [he] at hkept

theorem kept_read (hembedded : ∀ s v, embedded s = .ok v → Kept v) {depth : Nat} {v : Value} {cs rest : List Char}
    (h : read (.sorted embedded) depth cs = .ok (v, rest)) : Kept v := by
  induction depth using Nat.strongRecOn generalizing v cs rest with
  | ind depth ih =>
    unfold read at h
    split at h
    · cases h
    · rename_i c cs _
      split at h
      · exact kept_map (fun _ _ => .null) h
      split at h
      · exact kept_map (fun _ _ => .bool true) h
      split at h
      · exact kept_map (fun _ _ => .bool false) h
      split at h
      · exact kept_map (fun _ _ => .text _) h
      split at h
      · exact kept_map (fun _ hn => .number (fits_number hn)) h
      split at h
      · split at h
        · cases h
        · rename_i depth
          obtain ⟨⟨done, _⟩, hitems, hv⟩ := bind_ok.mp h
          cases hv
          have hdone := items_keeps (keeps_readItem (ih depth (Nat.lt_succ_self _))) (by simp) hitems
          exact .list fun v hv => hdone v (List.mem_reverse.mp hv)
      split at h
      · split at h
        · cases h
        · rename_i depth
          obtain ⟨⟨name, _⟩, _, h⟩ := bind_ok.mp h
          cases name with
          | none =>
            obtain ⟨_, _, hv⟩ := bind_ok.mp h
            cases hv
            exact .object .nil (by simp) (by simp)
          | some name =>
            have hmember := keeps_readMember (ih depth (Nat.lt_succ_self _))
            dsimp only at h
            split at h
            · rename_i reader hreader
              obtain ⟨_, _, h⟩ := bind_ok.mp h
              obtain ⟨⟨spelled, _⟩, _, h⟩ := bind_ok.mp h
              obtain ⟨v', hv', h⟩ := bind_ok.mp h
              obtain ⟨_, _, h⟩ := bind_ok.mp h
              cases h
              rw [Form.embedded?] at hreader
              split at hreader
              · cases hreader
                exact hembedded _ _ hv'
              · cases hreader
            · rename_i hname
              obtain ⟨⟨kept, _⟩, hfirst, h⟩ := bind_ok.mp h
              obtain ⟨⟨kept', _⟩, hothers, h⟩ := bind_ok.mp h
              obtain ⟨_, _, h⟩ := bind_ok.mp h
              cases h
              have hkept := kept_firstMember (ih depth (Nat.lt_succ_self _)) hname hfirst
              have hall := membersUpTo_keeps (fun _ _ _ _ _ hs h => hmember _ _ _ _ _ hs h) hkept hothers
              exact .object hall.sorted hall.values fun _ => hall.other
      · cases h

theorem kept_documentUpTo {fuel : Nat} {s : String} {v : Value} (h : documentUpTo fuel s = .ok v) : Kept v := by
  induction fuel generalizing s v with
  | zero => cases h
  | succ fuel ih =>
    rw [documentUpTo] at h
    split at h
    · rename_i v' hv
      cases h
      obtain ⟨⟨_, _⟩, hread, hv⟩ := bind_ok.mp hv
      dsimp only at hv
      split at hv
      · cases hv
        exact kept_read (fun s v hs => ih hs) hread
      · cases hv
    · cases h

theorem kept_value {depth : Nat} {v : Value} {cs rest : List Char}
    (h : Codec.value.read depth cs = .ok (v, rest)) : Kept v :=
  kept_read (fun _ _ h => kept_documentUpTo h) h

end Value

end EventIntake.Json
