import EventIntake.Event.Category

/-! Categories are in a strict total order. -/
namespace EventIntake.Event.Category

theorem index_inj {a b : Category} (h : a.index = b.index) : a = b := by
  cases a <;> cases b <;> first | rfl | exact absurd h (by decide)

instance : Trans (α := Category) (· < ·) (· < ·) (· < ·) :=
  ⟨fun {a b c} (h : a.index < b.index) (h' : b.index < c.index) =>
    (Nat.lt_trans h h' : a.index < c.index)⟩

instance : Std.Irrefl (α := Category) (· < ·) := ⟨fun a => Nat.lt_irrefl a.index⟩

instance : Std.Trichotomous (α := Category) (· < ·) where
  trichotomous _ _ h h' := index_inj (Nat.le_antisymm (Nat.not_lt.mp h') (Nat.not_lt.mp h))

end EventIntake.Event.Category
