import Mathlib.Data.Multiset.Sort

/-!
# Order statistics of a finite multiset

The `k`-th smallest element of a multiset (counted from `0`) is the one a sorted
listing holds at position `k`: at most `k` elements lie strictly below it and
more than `k` lie at or below it (`IsKthSmallest`, `isKthSmallest_of_sorted`).
Only one element has that property (`IsKthSmallest.unique`).

A list sorted by insertion is the sorted listing of its multiset
(`insertionSort_eq_sort`), so the sort forgets the order of its input: two
permutations sort to the same list (`insertionSort_eq_of_perm`), and a sorted
sublist of a sorted list commutes with a filter (`filter_insertionSort`).
-/

namespace OrderStatistic

variable {α : Type*} [LinearOrder α]

/-- `v` is the `k`-th smallest element of `s`, counted from `0`. -/
def IsKthSmallest (s : Multiset α) (k : ℕ) (v : α) : Prop :=
  (s.filter (· < v)).card ≤ k ∧ k < (s.filter (· ≤ v)).card

theorem IsKthSmallest.unique {s : Multiset α} {k : ℕ} {v w : α} (hv : IsKthSmallest s k v)
    (hw : IsKthSmallest s k w) : v = w := by
  by_contra hne
  -- the smaller of the two has more than `k` elements at or below it, all below the other
  have key : ∀ {a b : α}, IsKthSmallest s k a → IsKthSmallest s k b → a < b → False := by
    intro a b ha hb hab
    obtain ⟨-, ha⟩ := ha
    obtain ⟨hb, -⟩ := hb
    have hsub : s.filter (· ≤ a) ≤ s.filter (· < b) :=
      Multiset.monotone_filter_right s fun x hx => lt_of_le_of_lt hx hab
    have := Multiset.card_le_card hsub
    omega
  rcases lt_or_gt_of_ne hne with hlt | hgt
  · exact key hv hw hlt
  · exact key hw hv hgt

theorem insertionSort_eq_sort (l : List α) :
    l.insertionSort (· ≤ ·) = (l : Multiset α).sort (· ≤ ·) := by
  rw [Multiset.coe_sort, List.mergeSort_eq_insertionSort]

theorem insertionSort_eq_of_perm {l₁ l₂ : List α} (h : l₁.Perm l₂) :
    l₁.insertionSort (· ≤ ·) = l₂.insertionSort (· ≤ ·) := by
  rw [insertionSort_eq_sort, insertionSort_eq_sort, Multiset.coe_eq_coe.mpr h]

theorem filter_insertionSort (p : α → Bool) (l : List α) :
    (l.insertionSort (· ≤ ·)).filter p = (l.filter p).insertionSort (· ≤ ·) := by
  apply List.Perm.eq_of_pairwise' (r := (· ≤ ·))
  · exact (List.pairwise_insertionSort _ l).filter p
  · exact List.pairwise_insertionSort _ _
  · exact ((List.perm_insertionSort _ l).filter p).trans (List.perm_insertionSort _ _).symm

theorem isKthSmallest_of_sorted {l : List α} (hl : l.SortedLE) {k : ℕ} {v : α}
    (hv : l[k]? = some v) : IsKthSmallest (l : Multiset α) k v := by
  obtain ⟨hk, rfl⟩ := List.getElem?_eq_some_iff.mp hv
  simp only [IsKthSmallest, Multiset.filter_coe, Multiset.coe_card, ← List.countP_eq_length_filter]
  constructor
  · have hdrop : (l.drop k).countP (· < l[k]) = 0 := by
      refine List.countP_eq_zero.mpr fun x hx => ?_
      obtain ⟨j, hj, rfl⟩ := List.mem_drop_iff_getElem.mp hx
      simpa using hl.getElem_le_getElem_of_le (Nat.le_add_right k j)
    calc l.countP (· < l[k]) = (l.take k).countP (· < l[k]) + (l.drop k).countP (· < l[k]) := by
          rw [← List.countP_append, List.take_append_drop]
      _ ≤ k := by
          rw [hdrop, Nat.add_zero]
          exact List.countP_le_length.trans (List.length_take_le _ _)
  · have htake : (l.take (k + 1)).countP (· ≤ l[k]) = k + 1 := by
      rw [List.countP_eq_length.mpr, List.length_take]
      · omega
      intro x hx
      obtain ⟨j, hj, rfl⟩ := List.mem_take_iff_getElem.mp hx
      simpa using hl.getElem_le_getElem_of_le (by omega : j ≤ k)
    exact lt_of_lt_of_le (by omega) (List.take_sublist (k + 1) l).countP_le

end OrderStatistic
