import Mathlib

/-!
# `sort.Search` and slice insertion

Go's `sort.Search(n, f)` bisects `[0, n)` for the first index at which `f`
holds, assuming `f` is false and then true along the range.  It is the one
search the sequencer's gas-price list uses, both to insert and to delete.

The predicate runs in `Except ε`: the callers index a map with it, and a
missing key panics there, so the search is modelled with that failure and
passes it on.  With a predicate that cannot fail the search is the pure one.

* `Go.sortSearch`: the bisection, with the loop `sortSearch.go` on fuel.
* `Go.sortSearch_eq`: on a predicate that is false below `m` and true from
  `m` on, the search returns `m`.
* `Go.sortSearch_append`: the same for a list split into a part where the
  predicate fails and a part where it holds.
* `Go.insertIdx_append`, `Go.eraseIdx_append`: the slice idioms that put an
  element at, and take it out of, a position.
-/

namespace Go

variable {ε α : Type}

/-- `sort.Search(n, f)`: `i, j := 0, n`, and while `i < j` look at
`h := (i + j) / 2`, moving `i` past `h` when `f h` is false and `j` down to
`h` when it is true.  Each round shrinks `j - i`, so the fuel `n` is enough
(`sortSearch.go_eq`). -/
def sortSearch (n : Nat) (f : Nat → Except ε Bool) : Except ε Nat :=
  go f n 0 n
where
  go (f : Nat → Except ε Bool) : Nat → Nat → Nat → Except ε Nat
  | 0, i, _ => .ok i
  | fuel + 1, i, j =>
    if i < j then
      match f ((i + j) / 2) with
      | .error e => .error e
      | .ok false => go f fuel ((i + j) / 2 + 1) j
      | .ok true => go f fuel i ((i + j) / 2)
    else .ok i

theorem sortSearch.go_eq {f : Nat → Except ε Bool} {m : Nat} :
    ∀ (fuel i j : Nat), j - i ≤ fuel → i ≤ m → m ≤ j →
      (∀ k, i ≤ k → k < j → f k = .ok (decide (m ≤ k))) → go f fuel i j = .ok m := by
  intro fuel
  induction fuel with
  | zero =>
    intro i j hfuel him hmj _
    simp only [go]
    congr 1
    omega
  | succ fuel ih =>
    intro i j hfuel him hmj hf
    rw [go]
    by_cases hij : i < j
    · -- the probe `h` lies in `[i, j)`, so `f h` is known and one side is kept
      rw [if_pos hij, hf _ (by omega) (by omega)]
      by_cases hm : m ≤ (i + j) / 2
      · simp only [hm, decide_true]
        exact ih i _ (by omega) him hm fun k hk₁ hk₂ => hf k hk₁ (by omega)
      · simp only [hm, decide_false]
        exact ih _ j (by omega) (by omega) hmj fun k hk₁ hk₂ => hf k (by omega) hk₂
    · rw [if_neg hij]
      congr 1
      omega

/-- `sort.Search` returns the threshold of a predicate that is false below it
and true from it on. -/
theorem sortSearch_eq {n m : Nat} {f : Nat → Except ε Bool} (hm : m ≤ n)
    (hf : ∀ k, k < n → f k = .ok (decide (m ≤ k))) : sortSearch n f = .ok m :=
  sortSearch.go_eq n 0 n (by omega) (Nat.zero_le m) hm fun k _ hk => hf k hk

theorem sortSearch_append {pre post : List α} {p : α → Bool} {f : Nat → Except ε Bool}
    (hpre : ∀ a ∈ pre, p a = false) (hpost : ∀ a ∈ post, p a = true)
    (hf : ∀ k (hk : k < (pre ++ post).length), f k = .ok (p (pre ++ post)[k])) :
    sortSearch (pre ++ post).length f = .ok pre.length := by
  apply sortSearch_eq (by simp)
  intro k hk
  rw [hf k hk]
  congr 1
  by_cases hlt : k < pre.length
  · rw [List.getElem_append_left hlt, hpre _ (List.getElem_mem hlt)]
    exact (decide_eq_false (by omega)).symm
  · rw [List.getElem_append_right (by omega), hpost _ (List.getElem_mem _)]
    exact (decide_eq_true (by omega)).symm

theorem dropWhile_of_pairwise {r : α → α → Prop} {q : α → Bool}
    (hmono : ∀ a b, r a b → q a = false → q b = false) :
    ∀ {l : List α}, l.Pairwise r → ∀ a ∈ l.dropWhile q, q a = false
  | [], _, a, ha => by simp at ha
  | b :: l, hl, a, ha => by
    rw [List.pairwise_cons] at hl
    by_cases hb : q b = true
    · rw [List.dropWhile_cons_of_pos hb] at ha
      exact dropWhile_of_pairwise hmono hl.2 a ha
    · -- the search stops at `b`, and `r b a` for everything after it
      have hb' : q b = false := by simpa using hb
      rw [List.dropWhile_cons_of_neg hb] at ha
      rcases List.mem_cons.mp ha with rfl | ha
      · exact hb'
      · exact hmono b a (hl.1 a ha) hb'

theorem sortSearch_pairwise {r : α → α → Prop} {p : α → Bool} {l : List α}
    {f : Nat → Except ε Bool} (hl : l.Pairwise r) (hmono : ∀ a b, r a b → p a = true → p b = true)
    (hf : ∀ k (hk : k < l.length), f k = .ok (p l[k])) :
    sortSearch l.length f = .ok (l.takeWhile fun a => !p a).length := by
  have hsplit := List.takeWhile_append_dropWhile (p := fun a => !p a) (l := l)
  have hpre : ∀ a ∈ l.takeWhile (fun a => !p a), p a = false := fun a ha => by
    simpa using List.mem_takeWhile_imp ha
  have hpost : ∀ a ∈ l.dropWhile (fun a => !p a), p a = true := fun a ha => by
    have hnot := dropWhile_of_pairwise (q := fun a => !p a)
      (fun a b hab h => by simpa using hmono a b hab (by simpa using h)) hl a ha
    simpa using hnot
  have h := sortSearch_append hpre hpost (f := f) (by rw [hsplit]; exact hf)
  rwa [hsplit] at h

/-! ### Slices -/

theorem insertIdx_append (pre post : List α) (x : α) :
    (pre ++ post).insertIdx pre.length x = pre ++ x :: post := by
  induction pre with
  | nil => simp
  | cons a pre ih => simp [List.insertIdx_succ_cons, ih]

theorem eraseIdx_append (pre post : List α) (x : α) :
    (pre ++ x :: post).eraseIdx pre.length = pre ++ post := by
  rw [List.eraseIdx_append_of_length_le (le_refl _), Nat.sub_self, List.eraseIdx_zero,
    List.tail_cons]

end Go
