import FormLang.Failure

/-!
# `FormLang.Proofs.Numeral` — reading digits and writing them

## Contents
- `digitsOrFail_of_lt`, `decimal_of_nonneg`: a number below the limit is written as its digits;
  `digitsOrFail_eq`: which numbers can be written.
- `read?_eq_ofDigitChars`: what a run of digits is read as.
- `read?_toDigits`: its digits are read as the number.
- `lt_limit_of_read?`: no number that is read is beyond the limit, so all of them can be written.
-/

namespace FormLang
namespace Numeral

theorem value_eq_ofDigitChars (ds : List Char) : value ds = Nat.ofDigitChars 10 ds 0 := rfl

/-- A run of digits is read as its decimal value unless there are more than 4300 of them. -/
theorem read?_eq_ofDigitChars (ds : List Char) :
    read? ds = if ds.length ≤ 4300 then some (Nat.ofDigitChars 10 ds 0) else none := rfl

/-- The digits of a number stand for the number. -/
theorem value_toDigits (n : Nat) : value (Nat.toDigits 10 n) = n := by
  rw [value_eq_ofDigitChars, Nat.ofDigitChars_ten_toDigits]

/-- A number has as many digits as it takes powers of ten to exceed it. -/
theorem length_toDigits_le_iff {n k : Nat} (hk : 0 < k) :
    (Nat.toDigits 10 n).length ≤ k ↔ n < Nat.pow 10 k :=
  Nat.length_toDigits_le_iff (by decide) hk

/-- A number below the limit has few enough digits, and only such a number. -/
theorem length_toDigits_le_maxDigits_iff {n : Nat} :
    (Nat.toDigits 10 n).length ≤ maxDigits ↔ n < limit := by
  have hpos : 0 < maxDigits := Nat.succ_pos 4299
  unfold limit
  exact length_toDigits_le_iff hpos

/-- Of a base up to ten, powers with few enough digits are within the limit. -/
theorem pow_le_limit {b k : Nat} (hb : b ≤ 10) (hk : k ≤ maxDigits) : Nat.pow b k ≤ limit := by
  have hpow : ∀ {m}, k ≤ m → Nat.pow b k ≤ Nat.pow 10 m := fun hm =>
    Nat.le_trans (Nat.pow_le_pow_left hb k) (Nat.pow_le_pow_right (Nat.succ_pos 9) hm)
  unfold limit
  exact hpow hk

theorem limit_pos : 0 < limit := by
  have hone : Nat.pow 1 0 ≤ limit := pow_le_limit (Nat.succ_pos 9) (Nat.zero_le maxDigits)
  exact hone

/-- **The digits of a number below the limit are read as the number.** -/
theorem read?_toDigits {n : Nat} (h : n < limit) : read? (Nat.toDigits 10 n) = some n := by
  rw [read?, if_pos (length_toDigits_le_maxDigits_iff.mpr h), value_toDigits]

/-- A number below the limit can be written. -/
theorem digitsOrFail_of_lt {n : Int} (h : n.natAbs < limit) : digitsOrFail n = .ok (decimal n) := by
  unfold digitsOrFail decimal?
  rw [if_pos h]

/-- A number of too many digits cannot be written, and every other number can. -/
theorem digitsOrFail_eq (n : Int) :
    digitsOrFail n =
      if maxDigits < (Nat.toDigits 10 n.natAbs).length then .error .tooManyDigits
      else .ok (decimal n) := by
  by_cases h : n.natAbs < limit
  · have hfew := length_toDigits_le_maxDigits_iff.mpr h
    rw [digitsOrFail_of_lt h, if_neg (Nat.not_lt.mpr hfew)]
  · have hmany := mt length_toDigits_le_maxDigits_iff.mp h
    unfold digitsOrFail decimal?
    rw [if_neg h, if_pos (Nat.lt_of_not_le hmany)]

/-- A number that is not negative is written as its digits alone. -/
theorem decimal_of_nonneg {n : Int} (h : 0 ≤ n) :
    decimal n = String.ofList (Nat.toDigits 10 n.natAbs) := by
  rw [decimal, if_neg (Int.not_lt.mpr h), Nat.repr_eq_ofList_toDigits]

/-! ## Numbers that are read -/

theorem digitValue_le {c : Char} (h : c.isDigit = true) : digitValue c ≤ 9 := by
  have hle : c.toNat ≤ '9'.toNat := (Char.isDigit_iff_toNat.mp h).2
  exact Nat.sub_le_sub_right hle '0'.toNat

/-- Digits stand for less than the power of ten with one more digit. -/
theorem value_lt {ds : List Char} (h : ∀ d ∈ ds, d.isDigit = true) :
    value ds < Nat.pow 10 ds.length := by
  induction ds with
  | nil => exact Nat.one_pos
  | cons d ds ih =>
      have hd := digitValue_le (h d List.mem_cons_self)
      have hds := ih fun e he => h e (List.mem_cons_of_mem d he)
      have hsplit : value (d :: ds) = 10 ^ ds.length * digitValue d + value ds := by
        rw [value_eq_ofDigitChars, Nat.ofDigitChars_cons, Nat.ofDigitChars_eq_ofDigitChars_zero,
          Nat.mul_zero, Nat.zero_add]
        rfl
      calc value (d :: ds) = 10 ^ ds.length * digitValue d + value ds := hsplit
        _ < 10 ^ ds.length * digitValue d + 10 ^ ds.length := Nat.add_lt_add_left hds _
        _ = 10 ^ ds.length * (digitValue d + 1) := by rw [Nat.mul_add, Nat.mul_one]
        _ ≤ 10 ^ ds.length * 10 := Nat.mul_le_mul_left _ (Nat.succ_le_succ hd)
        _ = 10 ^ (d :: ds).length := (Nat.pow_succ ..).symm

/-- **A number that is read is below the limit.** -/
theorem lt_limit_of_read? {ds : List Char} {n : Nat} (hds : ∀ d ∈ ds, d.isDigit = true)
    (h : read? ds = some n) : n < limit := by
  rw [read?] at h
  split at h
  · rename_i hlen
    obtain rfl : value ds = n := Option.some.inj h
    exact Nat.lt_of_lt_of_le (value_lt hds) (pow_le_limit (Nat.le_refl 10) hlen)
  · cases h

end Numeral
end FormLang
