import CdkValidium.Rlp.Basic
import CdkValidium.Go.Hex

/-!
# The strict decoder reads back what the encoder writes

`decodeStringList` gives back the items of an `encodeList` of `encodeString`s
when every length fits in 64 bits (`decodeStringList_encodeList`): the encoder
writes exactly the canonical headers the decoder accepts.  The length bytes of
a long header are `beBytes` of the length, which are the base-256 digits of
the length, most significant first (`beBytes_eq`): they read back through
`setBytes`, have no leading zero and, for a length below `2 ^ 64`, are at most
eight.
-/

namespace Rlp

/-! ### Numbers as bytes -/

theorem beBytes_go : ∀ (fuel n : Nat) (acc : List UInt8), n ≤ fuel →
    beBytes.go fuel n acc = (Nat.digits 256 n).reverse.map UInt8.ofNat ++ acc := by
  intro fuel
  induction fuel with
  | zero =>
    intro n acc h
    obtain rfl : n = 0 := by omega
    rfl
  | succ fuel ih =>
    intro n acc h
    rw [beBytes.go]
    split
    · next hn =>
      subst hn
      rfl
    · next hn =>
      rw [ih (n / 256) _ (by omega), Nat.digits_def' (by norm_num) (show 0 < n by omega)]
      simp

theorem beBytes_eq (n : Nat) : beBytes n = (Nat.digits 256 n).reverse.map UInt8.ofNat := by
  rw [beBytes, beBytes_go n n [] le_rfl, List.append_nil]

theorem setBytes_reverse_map : ∀ (L : List Nat), (∀ d ∈ L, d < 256) →
    Go.setBytes (L.reverse.map UInt8.ofNat) = Nat.ofDigits 256 L := by
  intro L
  induction L with
  | nil => intro _; rfl
  | cons d L ih =>
    intro hL
    have hd : d % 2 ^ 8 = d := Nat.mod_eq_of_lt (hL d List.mem_cons_self)
    rw [List.reverse_cons, List.map_append, List.map_singleton, Go.setBytes_append_singleton,
      ih fun x hx => hL x (List.mem_cons_of_mem _ hx), Nat.ofDigits_cons, UInt8.toNat_ofNat', hd]
    ring

@[simp] theorem setBytes_beBytes (n : Nat) : Go.setBytes (beBytes n) = n := by
  rw [beBytes_eq, setBytes_reverse_map _ fun d hd => Nat.digits_lt_base (by norm_num) hd,
    Nat.ofDigits_digits]

theorem length_beBytes_le {n k : Nat} (h : n < 256 ^ k) : (beBytes n).length ≤ k := by
  rw [beBytes_eq, List.length_map, List.length_reverse]
  exact (Nat.digits_length_le_iff (by norm_num) n).mpr h

theorem beBytes_ne_nil {n : Nat} (h : n ≠ 0) : beBytes n ≠ [] := by
  simpa [beBytes_eq] using Nat.digits_ne_nil_iff_ne_zero.mpr h

theorem head?_beBytes {n : Nat} (h : n ≠ 0) : (beBytes n).head? ≠ some 0 := by
  have hne : Nat.digits 256 n ≠ [] := Nat.digits_ne_nil_iff_ne_zero.mpr h
  have hlast := Nat.getLast_digit_ne_zero 256 h
  have hlt : (Nat.digits 256 n).getLast hne < 256 :=
    Nat.digits_lt_base (by norm_num) (List.getLast_mem hne)
  rw [beBytes_eq, List.head?_map, List.head?_reverse, List.getLast?_eq_some_getLast hne]
  intro hc
  have h0 := congrArg UInt8.toNat (Option.some.inj hc)
  rw [UInt8.toNat_ofNat', Nat.mod_eq_of_lt hlt] at h0
  exact hlast h0

/-! ### Headers -/

theorem length_header_long {offset len : Nat} (h : 56 ≤ len) :
    (header offset len).length = (beBytes len).length + 1 := by
  simp [header, show ¬ len < 56 by omega]

theorem takeLong_beBytes {len : Nat} {payload rest : List UInt8} (hlen : 56 ≤ len)
    (hpay : payload.length = len) :
    takeLong (beBytes len).length (beBytes len ++ payload ++ rest) = .ok (payload, rest) := by
  have hne : len ≠ 0 := by omega
  simp only [takeLong, List.append_assoc, List.take_left', List.drop_left', setBytes_beBytes,
    head?_beBytes hne, List.length_append]
  simp [show ¬ len < 56 by omega, hpay]

section Bytes

open UInt8 in
theorem toNat_header_byte {m : Nat} (h : m < 256) : (UInt8.ofNat m).toNat = m := by
  rw [UInt8.toNat_ofNat']
  exact Nat.mod_eq_of_lt h

end Bytes

theorem takeString_header {b : List UInt8} (hne : ∀ x, b ≠ [x]) (hb : b.length < 2 ^ 64)
    (rest : List UInt8) : takeString (header 0x80 b.length ++ b ++ rest) = .ok (b, rest) := by
  by_cases hshort : b.length < 56
  · have hx := toNat_header_byte (m := 0x80 + b.length) (by omega)
    have hlen1 : b.length ≠ 1 := by
      intro h1
      obtain ⟨x, hx⟩ := List.length_eq_one_iff.mp h1
      exact hne x hx
    have h₁ : ¬ UInt8.ofNat (0x80 + b.length) < 0x80 := by
      simp only [UInt8.lt_iff_toNat_lt, hx, UInt8.reduceToNat]
      omega
    have h₂ : UInt8.ofNat (0x80 + b.length) < 0xb8 := by
      simp only [UInt8.lt_iff_toNat_lt, hx, UInt8.reduceToNat]
      omega
    rw [header, if_pos hshort, List.singleton_append, List.cons_append, takeString, if_neg h₁,
      if_pos h₂]
    simp only [hx, Nat.add_sub_cancel_left, hlen1, false_and, if_false, List.length_append,
      show ¬ (b.length + rest.length < b.length) by omega, List.take_left' rfl, List.drop_left' rfl]
  · have hk := length_beBytes_le (n := b.length) (k := 8) (by simpa using hb)
    have hk0 : (beBytes b.length).length ≠ 0 := by
      simpa using beBytes_ne_nil (n := b.length) (by omega)
    have hx := toNat_header_byte (m := 0x80 + 55 + (beBytes b.length).length) (by omega)
    have h₁ : ¬ UInt8.ofNat (0x80 + 55 + (beBytes b.length).length) < 0x80 := by
      simp only [UInt8.lt_iff_toNat_lt, hx, UInt8.reduceToNat]
      omega
    have h₂ : ¬ UInt8.ofNat (0x80 + 55 + (beBytes b.length).length) < 0xb8 := by
      simp only [UInt8.lt_iff_toNat_lt, hx, UInt8.reduceToNat]
      omega
    have h₃ : UInt8.ofNat (0x80 + 55 + (beBytes b.length).length) < 0xc0 := by
      simp only [UInt8.lt_iff_toNat_lt, hx, UInt8.reduceToNat]
      omega
    rw [header, if_neg hshort, List.cons_append, List.cons_append, takeString, if_neg h₁, if_neg h₂,
      if_pos h₃, hx, show 0x80 + 55 + (beBytes b.length).length - 0xb7 = (beBytes b.length).length by omega]
    exact takeLong_beBytes (by omega) rfl

theorem takeString_encodeString (b : List UInt8) (hb : b.length < 2 ^ 64) (rest : List UInt8) :
    takeString (encodeString b ++ rest) = .ok (b, rest) := by
  match b with
  | [x] =>
    by_cases hx : x < 0x80
    · simp [encodeString, hx, takeString]
    · -- a single byte from `0x80` on has the header `0x81`, which the canonical check accepts
      have hlt : ¬ ([x] : List UInt8) < [0x80] := by
        rw [List.cons_lt_cons_iff]
        simp [hx]
      have henc : encodeString [x] = [0x81, x] := by
        rw [encodeString, if_neg hx]
        rfl
      rw [henc, List.cons_append, List.cons_append, List.nil_append, takeString, if_neg (by decide),
        if_pos (by decide)]
      simp only [show (0x81 : UInt8).toNat - 0x80 = 1 from rfl, List.length_cons]
      rw [if_neg (by omega), if_neg (by simpa using hlt)]
      rfl
  | [] => exact takeString_header (fun _ h => by cases h) hb rest
  | x :: y :: b => exact takeString_header (fun _ h => by cases h) hb rest

theorem length_encodeString_pos (b : List UInt8) : 0 < (encodeString b).length := by
  unfold encodeString
  split
  · split <;> simp [header]
  · simp only [header, List.length_append]
    split <;> simp

theorem length_le_length_encodeString (b : List UInt8) : b.length ≤ (encodeString b).length := by
  unfold encodeString
  split
  · split <;> simp [header]
  · simp

theorem header_eq_cons (offset len : Nat) : ∃ h0 tail, header offset len = h0 :: tail := by
  unfold header
  split
  · exact ⟨_, [], rfl⟩
  · exact ⟨_, _, rfl⟩

theorem takeList_header {P : List UInt8} (hP : P.length < 2 ^ 64) (rest : List UInt8) :
    takeList (header 0xc0 P.length ++ P ++ rest) = .ok (P, rest) := by
  by_cases hshort : P.length < 56
  · have hx := toNat_header_byte (m := 0xc0 + P.length) (by omega)
    have h₁ : ¬ UInt8.ofNat (0xc0 + P.length) < 0xc0 := by
      simp only [UInt8.lt_iff_toNat_lt, hx, UInt8.reduceToNat]
      omega
    have h₂ : UInt8.ofNat (0xc0 + P.length) < 0xf8 := by
      simp only [UInt8.lt_iff_toNat_lt, hx, UInt8.reduceToNat]
      omega
    rw [header, if_pos hshort, List.singleton_append, List.cons_append, takeList, if_neg h₁,
      if_pos h₂]
    simp only [hx, Nat.add_sub_cancel_left, List.length_append,
      show ¬ (P.length + rest.length < P.length) by omega, if_false, List.take_left' rfl,
      List.drop_left' rfl]
  · have hk := length_beBytes_le (n := P.length) (k := 8) (by simpa using hP)
    have hk0 : (beBytes P.length).length ≠ 0 := by
      simpa using beBytes_ne_nil (n := P.length) (by omega)
    have hx := toNat_header_byte (m := 0xc0 + 55 + (beBytes P.length).length) (by omega)
    have h₁ : ¬ UInt8.ofNat (0xc0 + 55 + (beBytes P.length).length) < 0xc0 := by
      simp only [UInt8.lt_iff_toNat_lt, hx, UInt8.reduceToNat]
      omega
    have h₂ : ¬ UInt8.ofNat (0xc0 + 55 + (beBytes P.length).length) < 0xf8 := by
      simp only [UInt8.lt_iff_toNat_lt, hx, UInt8.reduceToNat]
      omega
    rw [header, if_neg hshort, List.cons_append, List.cons_append, takeList, if_neg h₁, if_neg h₂, hx,
      show 0xc0 + 55 + (beBytes P.length).length - 0xf7 = (beBytes P.length).length by omega]
    exact takeLong_beBytes (by omega) rfl

/-! ### Lists of strings -/

theorem takeStrings_go_encodeString : ∀ (items : List (List UInt8)) (fuel : Nat),
    (∀ b ∈ items, b.length < 2 ^ 64) → ((items.map encodeString).flatten).length ≤ fuel →
      takeStrings.go fuel (items.map encodeString).flatten = .ok items := by
  intro items
  induction items with
  | nil => intro fuel _ _; cases fuel <;> rfl
  | cons b items ih =>
    intro fuel hitems hfuel
    have hb := hitems b List.mem_cons_self
    have hpos := length_encodeString_pos b
    obtain ⟨y, ys, hys⟩ := List.exists_cons_of_length_pos
      (show 0 < (encodeString b ++ (items.map encodeString).flatten).length by simp; omega)
    simp only [List.map_cons, List.flatten_cons] at hfuel ⊢
    obtain ⟨f, rfl⟩ : ∃ f, fuel = f + 1 := ⟨fuel - 1, by rw [List.length_append] at hfuel; omega⟩
    have hrest : ((items.map encodeString).flatten).length ≤ f := by
      rw [List.length_append] at hfuel
      omega
    rw [hys, takeStrings.go, ← hys, takeString_encodeString b hb]
    dsimp only
    rw [ih f (fun b' hb' => hitems b' (List.mem_cons_of_mem _ hb')) hrest]
    rfl

/-- `rlp.DecodeBytes` into `[][]byte` reads back the items of their encoding. -/
theorem decodeStringList_encodeList (items : List (List UInt8)) (hitems : ∀ b ∈ items, b.length < 2 ^ 64)
    (htotal : ((items.map encodeString).flatten).length < 2 ^ 64) :
    decodeStringList (encodeList (items.map encodeString)) = .ok items := by
  have hlist := takeList_header htotal []
  rw [List.append_nil] at hlist
  rw [decodeStringList, encodeList, hlist]
  dsimp only
  rw [if_pos rfl, takeStrings]
  exact takeStrings_go_encodeString items _ hitems le_rfl

end Rlp
