import EventIntake.Decimal.Digits

/-! Whole numbers in decimal digits. -/
namespace EventIntake.Decimal

/-- Digits are told from what follows them. -/
theorem span_digits {ds rest : List Char} (hds : ∀ c ∈ ds, isDigit c = true)
    (hrest : ∀ c ∈ rest.head?, isDigit c = false) :
    (ds ++ rest).takeWhile isDigit = ds ∧ (ds ++ rest).dropWhile isDigit = rest := by
  rw [List.takeWhile_append_of_pos hds, List.dropWhile_append_of_pos hds]
  cases rest with
  | nil => simp
  | cons c rest => simp [hrest c rfl]

theorem natOf_toString (n : Nat) : natOf (toString n).toList = n := by
  rw [Nat.toString_eq_repr, Nat.toList_repr]
  exact Nat.ofDigitChars_eq_foldl.symm.trans (Nat.ofDigitChars_toDigits (by decide) (by decide))

theorem isDigit_toString (n : Nat) : (toString n).toList.all isDigit := by
  rw [Nat.toString_eq_repr, Nat.toList_repr, List.all_eq_true]
  intro c hc
  simpa [isDigit, Char.isDigit, Char.le_def] using Nat.isDigit_of_mem_toDigits (by decide) (by decide) hc

theorem toString_eq (n : Int) :
    (toString n).toList = (if n < 0 then ['-'] else []) ++ (toString n.natAbs).toList := by
  cases n with
  | ofNat m => rfl
  | negSucc m => simp [toString, Int.repr, Int.negSucc_lt_zero, Nat.repr]

/-- Only zero starts with a zero. -/
theorem toString_cases (n : Nat) :
    (n = 0 ∧ (toString n).toList = ['0']) ∨
      ∃ d ds, (toString n).toList = d :: ds ∧ d ≠ '0' ∧ isDigit d = true := by
  rw [Nat.toString_eq_repr, Nat.toList_repr]
  induction n using Nat.strongRecOn with
  | ind n ih =>
    rcases Nat.lt_or_ge n 10 with hn | hn
    · rw [Nat.toDigits_of_lt_base hn]
      have hdigits : ∀ k < 10, (k = 0 ∧ [Nat.digitChar k] = ['0']) ∨
          Nat.digitChar k ≠ '0' ∧ isDigit (Nat.digitChar k) = true := by decide
      rcases hdigits n hn with h | h
      · exact .inl h
      · exact .inr ⟨_, [], rfl, h⟩
    · rw [Nat.toDigits_of_base_le (by decide) hn]
      rcases ih (n / 10) (by omega) with ⟨hzero, _⟩ | ⟨d, ds, hds, hd⟩
      · omega
      · exact .inr ⟨d, ds ++ [Nat.digitChar (n % 10)], by rw [hds]; rfl, hd⟩

/-- A sign is told from the digits that follow it. -/
theorem signed_inj {p q : Prop} [Decidable p] [Decidable q] {c d : Char} {cs ds : List Char}
    (hc : isDigit c = true) (hd : isDigit d = true)
    (h : (if p then ['-'] else []) ++ c :: cs = (if q then ['-'] else []) ++ d :: ds) :
    (p ↔ q) ∧ c :: cs = d :: ds := by
  have hsign : isDigit '-' = false := rfl
  by_cases hp : p <;> by_cases hq : q <;> simp only [hp, hq, if_true, if_false] at h ⊢
  · exact ⟨trivial, List.tail_eq_of_cons_eq h⟩
  · cases h
    exact absurd (hsign.symm.trans hd) (by decide)
  · cases h
    exact absurd (hsign.symm.trans hc) (by decide)
  · exact ⟨trivial, h⟩

theorem toString_opens (n : Nat) : ∃ d ds, (toString n).toList = d :: ds ∧ isDigit d = true := by
  rcases toString_cases n with ⟨_, hs⟩ | ⟨d, ds, hs, _, hd⟩
  · exact ⟨'0', [], hs, rfl⟩
  · exact ⟨d, ds, hs, hd⟩

theorem toString_injective : Function.Injective (toString : Int → String) := by
  intro m n h
  have hchars : (toString m).toList = (toString n).toList := congrArg String.toList h
  obtain ⟨c, cs, hm, hc⟩ := toString_opens m.natAbs
  obtain ⟨d, ds, hn, hd⟩ := toString_opens n.natAbs
  rw [toString_eq, toString_eq, hm, hn] at hchars
  obtain ⟨hsign, hdigits⟩ := signed_inj hc hd hchars
  have habs : m.natAbs = n.natAbs := by
    rw [← natOf_toString m.natAbs, ← natOf_toString n.natAbs, hm, hn, hdigits]
  omega

end EventIntake.Decimal
