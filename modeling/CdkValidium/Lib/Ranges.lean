import Mathlib

/-!
# Closed ranges of numbers

A closed range `[lo, hi]` of natural numbers, given by its two ends.  Two
ranges overlap when each starts no later than the other ends (`Overlaps`); for
ranges that are not empty this says that the sets `Set.Icc lo hi` meet
(`overlaps_iff_not_disjoint`).  A range made of two adjacent ranges overlaps
exactly what overlaps one of them (`overlaps_join_iff`), and a range inside
another overlaps it (`Overlaps.of_inside`).
-/

namespace Ranges

/-- The closed ranges `a` and `b` share a number. -/
def Overlaps (a b : ℕ × ℕ) : Prop := a.1 ≤ b.2 ∧ b.1 ≤ a.2

instance (a b : ℕ × ℕ) : Decidable (Overlaps a b) := inferInstanceAs (Decidable (_ ∧ _))

theorem Overlaps.symm {a b : ℕ × ℕ} (h : Overlaps a b) : Overlaps b a := ⟨h.2, h.1⟩

theorem overlaps_comm {a b : ℕ × ℕ} : Overlaps a b ↔ Overlaps b a := ⟨Overlaps.symm, Overlaps.symm⟩

theorem overlaps_self {a : ℕ × ℕ} (h : a.1 ≤ a.2) : Overlaps a a := ⟨h, h⟩

theorem Overlaps.of_inside {a c : ℕ × ℕ} (ha : a.1 ≤ a.2) (hlo : c.1 ≤ a.1) (hhi : a.2 ≤ c.2) :
    Overlaps a c := ⟨by omega, by omega⟩

theorem overlaps_join_iff {a b q : ℕ × ℕ} (ha : a.1 ≤ a.2) (hb : b.1 ≤ b.2) (hq : q.1 ≤ q.2)
    (hab : a.2 + 1 = b.1) : Overlaps q (a.1, b.2) ↔ Overlaps q a ∨ Overlaps q b := by
  unfold Overlaps
  dsimp only
  constructor
  · rintro ⟨h₁, h₂⟩
    by_cases hlow : q.1 ≤ a.2
    · exact .inl ⟨hlow, h₂⟩
    · exact .inr ⟨h₁, by omega⟩
  · rintro (⟨h₁, h₂⟩ | ⟨h₁, h₂⟩)
    · exact ⟨by omega, h₂⟩
    · exact ⟨h₁, by omega⟩

theorem overlaps_iff_not_disjoint {a b : ℕ × ℕ} (ha : a.1 ≤ a.2) (hb : b.1 ≤ b.2) :
    Overlaps a b ↔ ¬ Disjoint (Set.Icc a.1 a.2) (Set.Icc b.1 b.2) := by
  rw [Set.not_disjoint_iff]
  constructor
  · rintro ⟨h₁, h₂⟩
    exact ⟨max a.1 b.1, ⟨le_max_left _ _, max_le ha h₂⟩, ⟨le_max_right _ _, max_le h₁ hb⟩⟩
  · rintro ⟨x, ⟨hx₁, hx₂⟩, ⟨hx₃, hx₄⟩⟩
    exact ⟨hx₁.trans hx₄, hx₃.trans hx₂⟩

end Ranges
