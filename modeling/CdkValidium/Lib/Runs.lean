import Mathlib.Data.List.Destutter

/-!
# Contiguous runs of a list

A list whose elements with one value of `f` stand together splits into runs,
one per value.  `Runs.Contiguous f l` says so; `List.destutter (· ≠ ·)` of the
values lists the runs in order.  Here are the facts a fold that opens a new
run whenever the value changes needs: how `destutter` grows at the end
(`destutter_append_singleton`), and that in a contiguous list a value met
before the last element and again after it is the last element's value
(`Contiguous.eq_of_mem_before`).
-/

namespace Runs

variable {α β : Type}

/-- The elements of `l` with one value of `f` stand together. -/
def Contiguous (f : α → β) (l : List α) : Prop :=
  ∀ pre a mid b post, l = pre ++ a :: (mid ++ b :: post) → f a = f b → ∀ c ∈ mid, f c = f a

theorem Contiguous.eq_of_mem_before {f : α → β} {pre post rest : List α} {e x d : α}
    (h : Contiguous f (pre ++ e :: post ++ x :: rest)) (hd : d ∈ pre) (hdx : f d = f x) : f e = f d := by
  obtain ⟨pre₁, pre₂, rfl⟩ := List.append_of_mem hd
  exact h pre₁ d (pre₂ ++ e :: post) x rest (by simp) hdx e (by simp)

theorem contiguous_of_pairwise_le [PartialOrder β] {f : α → β} {l : List α}
    (h : l.Pairwise fun x y => f x ≤ f y) : Contiguous f l := by
  intro pre a mid b post hl hab c hc
  rw [hl] at h
  have hpost := (List.pairwise_append.mp h).2.1
  have ha := List.rel_of_pairwise_cons hpost (List.mem_append_left _ hc)
  have hmid := (List.pairwise_append.mp (List.pairwise_cons.mp hpost).2).2.2 c hc b List.mem_cons_self
  exact le_antisymm (hmid.trans_eq hab.symm) ha

theorem exists_of_getLast?_filter {p : α → Bool} :
    ∀ {l : List α} {e : α}, (l.filter p).getLast? = some e →
      ∃ pre post, l = pre ++ e :: post ∧ p e = true ∧ ∀ x ∈ post, p x = false := by
  intro l
  induction l using List.reverseRecOn with
  | nil => intro e h; simp at h
  | append_singleton l y ih =>
    intro e h
    by_cases hy : p y = true
    · rw [List.filter_append, List.filter_singleton, hy, cond_true,
        List.getLast?_append_of_ne_nil _ (List.cons_ne_nil _ _)] at h
      simp only [List.getLast?_singleton, Option.some.injEq] at h
      subst h
      exact ⟨l, [], rfl, hy, by simp⟩
    · rw [List.filter_append, List.filter_singleton, Bool.eq_false_iff.mpr hy, cond_false,
        List.append_nil] at h
      obtain ⟨pre, post, rfl, he, hpost⟩ := ih h
      refine ⟨pre, post ++ [y], by simp, he, fun x hx => ?_⟩
      rcases List.mem_append.mp hx with hx | hx
      · exact hpost x hx
      · rw [List.mem_singleton.mp hx]
        simpa using hy

variable [DecidableEq β]

theorem destutter'_append_singleton (x : β) :
    ∀ (l : List β) (a : β), (l ++ [x]).destutter' (· ≠ ·) a =
      if (a :: l).getLast (List.cons_ne_nil _ _) = x then l.destutter' (· ≠ ·) a
      else l.destutter' (· ≠ ·) a ++ [x] := by
  intro l
  induction l with
  | nil =>
    intro a
    by_cases hax : a = x <;> simp [hax]
  | cons b l ih =>
    intro a
    rw [List.cons_append]
    by_cases hab : a = b
    · subst hab
      have hnot : ¬ (a ≠ a) := fun h => h rfl
      rw [List.destutter'_cons, if_neg hnot, List.destutter'_cons, if_neg hnot, ih a]
      simp
    · rw [List.destutter'_cons, if_pos hab, List.destutter'_cons, if_pos hab, ih b,
        List.getLast_cons (List.cons_ne_nil _ _)]
      split <;> simp

theorem destutter_append_singleton (l : List β) (x : β) :
    (l ++ [x]).destutter (· ≠ ·) =
      if l.getLast? = some x then l.destutter (· ≠ ·) else l.destutter (· ≠ ·) ++ [x] := by
  cases l with
  | nil => simp
  | cons a l =>
    rw [List.cons_append, List.destutter_cons', List.destutter_cons', destutter'_append_singleton]
    simp only [List.getLast?_eq_some_getLast (List.cons_ne_nil a l), Option.some.injEq]

theorem getLast?_destutter (l : List β) : (l.destutter (· ≠ ·)).getLast? = l.getLast? := by
  induction l using List.reverseRecOn with
  | nil => rfl
  | append_singleton l x ih =>
    rw [destutter_append_singleton]
    split
    · next hx => rw [ih, hx, List.getLast?_concat]
    · rw [List.getLast?_concat, List.getLast?_concat]

end Runs
