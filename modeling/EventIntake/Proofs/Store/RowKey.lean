import EventIntake.Store.Database

/-! The keys of rows are in a strict total order. -/
namespace EventIntake

namespace Cell

theorem before_irrefl (a : Cell) : a.before a = false := by
  cases a with
  | int n => exact decide_eq_false (Int64.lt_irrefl (a := n))
  | text s => exact decide_eq_false (Std.lt_irrefl (a := s))
  | null => rfl

theorem before_trans {a b c : Cell} (hab : a.before b = true) (hbc : b.before c = true) :
    a.before c = true := by
  cases a <;> cases b <;> cases c <;> first
    | rfl
    | exact absurd hab Bool.false_ne_true
    | exact absurd hbc Bool.false_ne_true
    | exact decide_eq_true (Int64.lt_trans (of_decide_eq_true hab) (of_decide_eq_true hbc))
    | exact decide_eq_true (Std.lt_trans (of_decide_eq_true hab) (of_decide_eq_true hbc))

theorem before_trichotomy (a b : Cell) : a.before b = true ∨ a = b ∨ b.before a = true := by
  cases a <;> cases b <;> first
    | exact .inl rfl
    | exact .inr (.inl rfl)
    | exact .inr (.inr rfl)
    | skip
  · rename_i m n
    simpa only [before, decide_eq_true_eq, Cell.int.injEq] using Std.lt_trichotomy m n
  · rename_i s t
    simpa only [before, decide_eq_true_eq, Cell.text.injEq] using Std.lt_trichotomy s t

end Cell

namespace RowKey

instance : Std.Irrefl (α := RowKey) (· < ·) where
  irrefl a h := by
    rcases h with h | ⟨_, h⟩ <;> simp [Cell.before_irrefl] at h

instance : Trans (α := RowKey) (· < ·) (· < ·) (· < ·) where
  trans {a b c} hab hbc := by
    rcases hab with hab | ⟨hab, hab'⟩ <;> rcases hbc with hbc | ⟨hbc, hbc'⟩
    · exact .inl (Cell.before_trans hab hbc)
    · exact .inl (hbc ▸ hab)
    · exact .inl (hab ▸ hbc)
    · exact .inr ⟨hab.trans hbc, Cell.before_trans hab' hbc'⟩

instance : Std.Trichotomous (α := RowKey) (· < ·) where
  trichotomous a b hab hba := by
    obtain ⟨da, sa⟩ := a
    obtain ⟨db, sb⟩ := b
    rcases Cell.before_trichotomy da db with h | rfl | h
    · exact absurd (.inl h) hab
    · rcases Cell.before_trichotomy sa sb with h | rfl | h
      · exact absurd (.inr ⟨rfl, h⟩) hab
      · rfl
      · exact absurd (.inr ⟨rfl, h⟩) hba
    · exact absurd (.inl h) hba

end RowKey

end EventIntake
