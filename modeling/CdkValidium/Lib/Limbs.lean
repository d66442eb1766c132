import Mathlib.Data.Nat.Digits.Defs

/-!
# Fixed-width digits

A number below `b ^ k` is written as `k` digits in base `b`, least significant
first, and read back with `Nat.ofDigits`.  `limbs b k n` are those digits
(of `n` modulo `b ^ k`); the two round trips are `ofDigits_limbs` and
`limbs_ofDigits`.  `limbs_eq_map_range` gives the digits the way code that
shifts and masks computes them, one index at a time.
-/

namespace Limbs

/-- The `k` digits of `n` in base `b`, least significant first. -/
def limbs (b : Nat) : Nat → Nat → List Nat
  | 0, _ => []
  | k + 1, n => n % b :: limbs b k (n / b)

variable {b : Nat}

@[simp] theorem length_limbs (k n : Nat) : (limbs b k n).length = k := by
  induction k generalizing n with
  | zero => rfl
  | succ k ih => simp [limbs, ih]

theorem limbs_succ (k n : Nat) : limbs b (k + 1) n = n % b :: limbs b k (n / b) := rfl

theorem limbs_eq_map_range (k n : Nat) : limbs b k n = (List.range k).map fun i => n / b ^ i % b := by
  induction k generalizing n with
  | zero => rfl
  | succ k ih =>
    rw [limbs_succ, ih, List.range_succ_eq_map, List.map_cons, List.map_map]
    congr 1
    · simp
    · apply List.map_congr_left
      intro i _
      simp [Function.comp, pow_succ', Nat.div_div_eq_div_mul]

theorem limbs_lt (hb : 0 < b) (k n : Nat) : ∀ x ∈ limbs b k n, x < b := by
  induction k generalizing n with
  | zero => simp [limbs]
  | succ k ih =>
    intro x hx
    rcases List.mem_cons.mp hx with rfl | hx
    · exact Nat.mod_lt _ hb
    · exact ih _ x hx

theorem ofDigits_limbs (k n : Nat) : Nat.ofDigits b (limbs b k n) = n % b ^ k := by
  induction k generalizing n with
  | zero => simp [limbs, Nat.mod_one]
  | succ k ih =>
    rw [limbs_succ, Nat.ofDigits_cons, ih, pow_succ', Nat.mod_mul]

theorem limbs_ofDigits {l : List Nat} (hl : ∀ x ∈ l, x < b) : limbs b l.length (Nat.ofDigits b l) = l := by
  induction l with
  | nil => rfl
  | cons x l ih =>
    have hx : x < b := hl x List.mem_cons_self
    have hb : 0 < b := by omega
    rw [List.length_cons, limbs_succ, Nat.ofDigits_cons, Nat.add_mul_mod_self_left, Nat.mod_eq_of_lt hx,
      Nat.add_mul_div_left _ _ hb, Nat.div_eq_of_lt hx, Nat.zero_add,
      ih fun y hy => hl y (List.mem_cons_of_mem _ hy)]

end Limbs
