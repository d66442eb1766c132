import CdkValidium.Go.Big

/-!
# Text of numbers: `strings`, `strconv` and `big.Int.Text`

The JSON-RPC codecs write numbers with `strconv.AppendUint` and read them
back with `strconv.ParseUint` or `hex.DecodeString`, after trimming quotes or a
`0x` prefix with `strings`.

* `Go.trim`, `Go.trimPrefix`: `strings.Trim` and `strings.TrimPrefix`.
* `Go.appendUint`: `strconv.AppendUint`, lowercase digits, and
  `Go.encodeUint64`, the repository's `hex.EncodeUint64`.
* `Go.bigText`: `x.Text(base)` of a `*big.Int`, with its sign.

`ParseUint` reads what `AppendUint` writes (`parseUint_toDigits`), and fails on
any text with a character that is not a hex digit (`parseUint_of_not_hex`);
`hex.DecodeString` fails on such text too (`hexDecodeString_of_not_hex`) and
reads the digits of a number padded to an even length as its big-endian bytes
(`hexDecodeString_padZero_toDigits`).  `SetString(·, 10)` reads the leading
digits of a number followed by zeros as that number with its last digits
zeroed (`setString_take_toDigits`).
-/

namespace Go

/-- `strings.Trim(s, cutset)`: the characters of `cutset` taken off both ends. -/
def trim (s cutset : List Char) : List Char :=
  ((s.dropWhile cutset.contains).reverse.dropWhile cutset.contains).reverse

/-- `strings.TrimPrefix(s, prefix)`. -/
def trimPrefix (s pre : List Char) : List Char :=
  if pre.isPrefixOf s then s.drop pre.length else s

/-- `strconv.AppendUint(dst, i, base)` for `base ≤ 16`: the digits of `i`,
lowercase and without leading zeros, after `dst`. -/
def appendUint (dst : List Char) (i : UInt64) (base : Nat) : List Char :=
  dst ++ Nat.toDigits base i.toNat

/-- `hex.EncodeUint64` of the repository's `hex` package: `AppendUint` after
`0x`, in base 16. -/
def encodeUint64 (i : UInt64) : List Char :=
  appendUint "0x".toList i 16

/-- `x.Text(base)` of a `*big.Int` for `base ≤ 16`: a minus sign, then the
digits of `|x|`. -/
def bigText (x : Int) (base : Nat) : List Char :=
  if x < 0 then '-' :: Nat.toDigits base x.natAbs else Nat.toDigits base x.natAbs

@[simp] theorem trimPrefix_append (pre s : List Char) : trimPrefix (pre ++ s) pre = s := by
  simp [trimPrefix]

theorem trim_of_forall_not_mem {s cutset : List Char} (h : ∀ c ∈ s, c ∉ cutset) : trim s cutset = s := by
  have hkeep : ∀ l : List Char, (∀ c ∈ l, c ∉ cutset) → l.dropWhile cutset.contains = l := by
    intro l hl
    cases l with
    | nil => rfl
    | cons c cs => simp [hl c (by simp)]
  rw [trim, hkeep s h, hkeep s.reverse (fun c hc => h c (List.mem_reverse.mp hc)), List.reverse_reverse]

/-! ### Digits -/

theorem digitChar_ne_of_lt {d : Nat} (h : d < 16) : Nat.digitChar d ≠ '"' ∧ Nat.digitChar d ≠ 'x' := by
  interval_cases d <;> decide

theorem mem_toDigits {base n : Nat} {c : Char} (h : c ∈ Nat.toDigits base n) (hb : 2 ≤ base) :
    ∃ d < base, c = Nat.digitChar d := by
  induction n using Nat.strongRecOn with
  | _ n ih =>
    by_cases hn : base ≤ n
    · rw [Nat.toDigits_of_base_le (by omega) hn, List.mem_append] at h
      rcases h with h | h
      · exact ih (n / base) (Nat.div_lt_self (by omega) (by omega)) h
      · exact ⟨n % base, Nat.mod_lt _ (by omega), List.mem_singleton.mp h⟩
    · rw [Nat.toDigits_of_lt_base (by omega)] at h
      exact ⟨n, by omega, List.mem_singleton.mp h⟩

theorem toDigits_ne_nil {base : Nat} (hb : 1 < base) (n : Nat) : Nat.toDigits base n ≠ [] := by
  by_cases hn : n < base
  · simp [Nat.toDigits_of_lt_base hn]
  · simp [Nat.toDigits_of_base_le hb (show base ≤ n by omega)]

/-! ### `ParseUint` -/

theorem parseUint_go_append (base : Nat) (xs ys : List Char) (n : Nat) :
    parseUint.go base (xs ++ ys) n = (parseUint.go base xs n).bind (parseUint.go base ys) := by
  induction xs generalizing n with
  | nil => rfl
  | cons c cs ih =>
    simp only [List.cons_append, parseUint.go]
    split
    · rfl
    · split
      · rfl
      · split
        · rfl
        · split
          · rfl
          · exact ih _

theorem parseUint_go_digitChar {base d n : Nat} (hb : base ≤ 16) (hd : d < base)
    (hn : n * base + d < 2 ^ 64) : parseUint.go base [Nat.digitChar d] n = .ok (n * base + d) := by
  have hcut : ¬ (2 ^ 64 - 1) / base + 1 ≤ n := by
    have : n ≤ (2 ^ 64 - 1) / base := (Nat.le_div_iff_mul_le (by omega)).mpr (by omega)
    omega
  rw [parseUint.go, digitValue_digitChar (by omega)]
  simp only [show ¬ base ≤ d by omega, hcut, show ¬ 2 ^ 64 - 1 < n * base + d by omega, if_false]
  rfl

theorem parseUint_toDigits {base n : Nat} (hb : 2 ≤ base) (hb16 : base ≤ 16) (hn : n < 2 ^ 64) :
    parseUint (Nat.toDigits base n) base = .ok n := by
  rw [parseUint, if_neg (toDigits_ne_nil (by omega) n)]
  induction n using Nat.strongRecOn with
  | _ n ih =>
    by_cases hlt : n < base
    · rw [Nat.toDigits_of_lt_base hlt]
      simpa using @parseUint_go_digitChar base n 0 hb16 hlt (by omega)
    · have hdiv : n / base < n := Nat.div_lt_self (by omega) (by omega)
      have hmod : n % base < base := Nat.mod_lt _ (by omega)
      have hsplit : n / base * base + n % base = n := Nat.div_add_mod' n base
      rw [Nat.toDigits_of_base_le (by omega) (by omega), parseUint_go_append, ih (n / base) hdiv (by omega)]
      simp only [Except.bind]
      rw [parseUint_go_digitChar hb16 hmod (by omega), hsplit]

theorem digitValue_of_fromHexChar_eq_none {c : Char} (h : fromHexChar c = none) :
    ∀ d, digitValue c = some d → 16 ≤ d := by
  intro d hd
  obtain ⟨h0, h9, ha, hf, hz, hA, hF, hZ⟩ : '0'.toNat = 48 ∧ '9'.toNat = 57 ∧ 'a'.toNat = 97 ∧ 'f'.toNat = 102 ∧
      'z'.toNat = 122 ∧ 'A'.toNat = 65 ∧ 'F'.toNat = 70 ∧ 'Z'.toNat = 90 := by decide
  simp only [fromHexChar, digitValue, Char.le_def, UInt32.le_iff_toNat_le, Char.toNat_val, h0, h9, ha, hf, hz, hA,
    hF, hZ] at h hd
  -- each branch of the two classifiers is a range of character codes
  split_ifs at h hd <;> simp only [Option.some.injEq] at h hd <;> omega

theorem parseUint_go_of_not_hex {s : List Char} (h : ∃ c ∈ s, fromHexChar c = none) (n : Nat) :
    ∃ e, parseUint.go 16 s n = .error e := by
  induction s generalizing n with
  | nil => simp at h
  | cons c cs ih =>
    rw [parseUint.go]
    cases hc : digitValue c with
    | none => exact ⟨_, rfl⟩
    | some d =>
      dsimp only
      by_cases hbad : fromHexChar c = none
      · rw [if_pos (digitValue_of_fromHexChar_eq_none hbad d hc)]
        exact ⟨_, rfl⟩
      · have hcs : ∃ c ∈ cs, fromHexChar c = none := by
          obtain ⟨c', hc', hbad'⟩ := h
          rcases List.mem_cons.mp hc' with rfl | hc'
          · exact absurd hbad' hbad
          · exact ⟨c', hc', hbad'⟩
        split_ifs
        · exact ⟨_, rfl⟩
        · exact ⟨_, rfl⟩
        · exact ⟨_, rfl⟩
        · exact ih hcs _

theorem parseUint_of_not_hex {s : List Char} (h : ∃ c ∈ s, fromHexChar c = none) :
    ∃ e, parseUint s 16 = .error e := by
  rw [parseUint]
  split
  · exact ⟨_, rfl⟩
  · exact parseUint_go_of_not_hex h 0

/-! ### `hex.DecodeString` -/

theorem hexDecodeString_of_not_hex {s : List Char} (h : ∃ c ∈ s, fromHexChar c = none) :
    ∃ e, hexDecodeString s = .error e := by
  induction s using hexDecodeString.induct with
  | case1 => simp at h
  | case2 c x hc =>
    rw [hexDecodeString, hc]
    exact ⟨_, rfl⟩
  | case3 c hc =>
    rw [hexDecodeString, hc]
    exact ⟨_, rfl⟩
  | case4 a b rest x y hb ha ih =>
    have hrest : ∃ c ∈ rest, fromHexChar c = none := by
      obtain ⟨c, hc, hbad⟩ := h
      simp only [List.mem_cons] at hc
      rcases hc with rfl | rfl | hc
      · simp [ha] at hbad
      · simp [hb] at hbad
      · exact ⟨c, hc, hbad⟩
    obtain ⟨e, he⟩ := ih hrest
    rw [hexDecodeString, ha, hb]
    simp only [he]
    exact ⟨e, rfl⟩
  | case5 a b rest ha =>
    rw [hexDecodeString, ha]
    exact ⟨_, rfl⟩
  | case6 a b rest x hb ha =>
    rw [hexDecodeString, ha, hb]
    exact ⟨_, rfl⟩

@[simp] theorem length_hexEncodeToString (bs : List UInt8) : (hexEncodeToString bs).length = 2 * bs.length := by
  induction bs with
  | nil => rfl
  | cons b bs ih =>
    rw [hexEncodeToString_cons, List.length_cons, List.length_cons, ih, List.length_cons]
    ring

theorem hexDecodeString_padZero_toDigits {k n : Nat} (hk : 0 < k) (hn : n < 16 ^ (2 * k)) :
    hexDecodeString (padZero (2 * k) (Nat.toDigits 16 n)) = .ok (bytesBE k n) := by
  rw [padZero_toDigits (by omega) hn, ← hexEncodeToString_bytesBE, hexDecodeString_hexEncodeToString]

/-! ### Leading digits -/

theorem length_toDigits_of_base_le {b n : Nat} (hb : 1 < b) (h : b ≤ n) :
    (Nat.toDigits b n).length = (Nat.toDigits b (n / b)).length + 1 := by
  rw [Nat.toDigits_of_base_le hb h, List.length_append, List.length_singleton]

theorem take_toDigits {b : Nat} (hb : 1 < b) :
    ∀ (k n : Nat), k < (Nat.toDigits b n).length →
      (Nat.toDigits b n).take ((Nat.toDigits b n).length - k) = Nat.toDigits b (n / b ^ k) := by
  intro k
  induction k with
  | zero => intro n _; simp
  | succ k ih =>
    intro n hk
    -- more than one digit: `n` has a last digit to drop
    have hbn : b ≤ n := by
      by_contra hlt
      rw [Nat.toDigits_of_lt_base (by omega)] at hk
      simp at hk
    have hlen := length_toDigits_of_base_le hb hbn
    have hdiv : n / b ^ (k + 1) = n / b / b ^ k := by rw [pow_succ', Nat.div_div_eq_div_mul]
    rw [hlen, hdiv, ← ih (n / b) (by omega), Nat.toDigits_of_base_le hb hbn,
      List.take_append_of_le_length (by omega)]
    congr 1
    omega

/-! ### `SetString` in base 10 -/

theorem scanDigits_append (base : Nat) (xs ys : List Char) (n : Nat) :
    scanDigits base (xs ++ ys) n = (scanDigits base xs n).bind (scanDigits base ys) := by
  induction xs generalizing n with
  | nil => rfl
  | cons c cs ih =>
    simp only [List.cons_append, scanDigits]
    split
    · split
      · exact ih _
      · rfl
    · rfl

theorem scanDigits_toDigits {base : Nat} (hb : 2 ≤ base) (hb16 : base ≤ 16) (n : Nat) :
    scanDigits base (Nat.toDigits base n) 0 = some n := by
  induction n using Nat.strongRecOn with
  | _ n ih =>
    by_cases hlt : n < base
    · rw [Nat.toDigits_of_lt_base hlt, scanDigits, digitValue_digitChar (by omega)]
      simp [hlt, scanDigits]
    · have hdiv : n / base < n := Nat.div_lt_self (by omega) (by omega)
      have hmod : n % base < base := Nat.mod_lt _ (by omega)
      rw [Nat.toDigits_of_base_le (by omega) (by omega), scanDigits_append, ih (n / base) hdiv]
      simp only [Option.bind_some, scanDigits, digitValue_digitChar (show n % base < 16 by omega), if_pos hmod]
      rw [Nat.div_add_mod]

theorem scanDigits_replicate_zero {base : Nat} (hb : 0 < base) (k n : Nat) :
    scanDigits base (List.replicate k '0') n = some (n * base ^ k) := by
  induction k generalizing n with
  | zero => simp [scanDigits]
  | succ k ih =>
    rw [List.replicate_succ, scanDigits, show digitValue '0' = some 0 by decide]
    dsimp only
    rw [if_pos hb, ih, pow_succ]
    congr 1
    ring

theorem setString_toDigits_append_zeros (q k : Nat) :
    setString (Nat.toDigits 10 q ++ List.replicate k '0') 10 = some ((q * 10 ^ k : Nat) : Int) := by
  obtain ⟨c, rest, hcs⟩ := List.exists_cons_of_ne_nil (toDigits_ne_nil (show 1 < 10 by norm_num) q)
  obtain ⟨d, hd, rfl⟩ := mem_toDigits (show c ∈ Nat.toDigits 10 q by rw [hcs]; simp) (by norm_num)
  obtain ⟨hminus, hplus⟩ := digitChar_ne_sign (show d < 16 by omega)
  rw [hcs, List.cons_append, setString, if_neg hminus, if_neg hplus, ← List.cons_append, ← hcs,
    scanDigits_append, scanDigits_toDigits (by norm_num) (by norm_num), Option.bind_some,
    scanDigits_replicate_zero (by norm_num)]
  rfl

theorem setString_take_toDigits {n k : Nat} (hk : k < (Nat.toDigits 10 n).length) :
    setString ((Nat.toDigits 10 n).take ((Nat.toDigits 10 n).length - k) ++ List.replicate k '0') 10 =
      some ((n / 10 ^ k * 10 ^ k : Nat) : Int) := by
  rw [take_toDigits (by norm_num) k n hk, setString_toDigits_append_zeros]

end Go
