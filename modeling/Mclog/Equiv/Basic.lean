import Mclog.Basic

/-!
# Numerals

`decimal` and `stoull` are inverse to each other below 2^64 (`stoull_decimal`), so that a number
survives being written as text and read back.
-/

namespace Mclog

theorem isdigit_decimal {n : Nat} {c : UInt8} (h : c ∈ decimal n) : isdigit c = true := by
  unfold decimal at h
  split_ifs at h with hn
  · rw [List.mem_singleton.mp h]
    rfl
  · obtain ⟨d, hd, rfl⟩ := List.mem_map.mp h
    have hlt : d < 10 := Nat.digits_lt_base (by norm_num) (List.mem_reverse.mp hd)
    interval_cases d <;> rfl

theorem decimal_ne_nil (n : Nat) : decimal n ≠ [] := by
  unfold decimal
  split_ifs with hn
  · simp
  · simpa [Nat.digits_ne_nil_iff_ne_zero] using hn

/-- Reading a numeral gives the number. -/
theorem foldl_decimal (n : Nat) :
    (decimal n).foldl (fun num c => 10 * num + (c.toNat - 48)) 0 = n := by
  unfold decimal
  split_ifs with hn
  · rw [hn]
    rfl
  · have hdigit : ∀ d ∈ Nat.digits 10 n, (48 + UInt8.ofNat d).toNat - 48 = d := by
      intro d hd
      have hlt : d < 10 := Nat.digits_lt_base (by norm_num) hd
      interval_cases d <;> rfl
    rw [List.foldl_map, List.foldl_reverse]
    conv_rhs => rw [← Nat.ofDigits_digits 10 n, Nat.ofDigits_eq_foldr]
    refine List.foldr_ext _ _ 0 fun d hd num => ?_
    rw [hdigit d hd, Nat.cast_id]
    ring

theorem stoull_lt {digits : Str} {num : Nat} (h : stoull digits = some num) : num < 2 ^ 64 := by
  unfold stoull at h
  dsimp only at h
  split_ifs at h with hlt
  rw [← Option.some.inj h]
  exact hlt.2

theorem stoull_decimal {n : Nat} (h : n < 2 ^ 64) : stoull (decimal n) = some n := by
  unfold stoull
  rw [foldl_decimal]
  exact if_pos ⟨decimal_ne_nil n, h⟩

/-- Digits make a number of no more digits. -/
theorem foldl_digits_lt {digits : Str} (hdigits : ∀ c ∈ digits, isdigit c = true) {num k : Nat}
    (hnum : num < 10 ^ k) :
    digits.foldl (fun num c => 10 * num + (c.toNat - 48)) num < 10 ^ (k + digits.length) := by
  induction digits generalizing num k with
  | nil => simpa using hnum
  | cons c digits ih =>
    have hc : c.toNat - 48 ≤ 9 := by
      have hle := hdigits c List.mem_cons_self
      simp only [isdigit, Bool.and_eq_true, decide_eq_true_eq, UInt8.le_iff_toNat_le] at hle
      have hnine : c.toNat ≤ 57 := hle.2
      omega
    have hnext : 10 * num + (c.toNat - 48) < 10 ^ (k + 1) := by
      rw [pow_succ]
      omega
    rw [List.foldl_cons, List.length_cons,
      show k + (digits.length + 1) = k + 1 + digits.length by ring]
    exact ih (fun d hd => hdigits d (List.mem_cons_of_mem _ hd)) hnext

/-- Up to nineteen digits fit into 64 bits. -/
theorem stoull_of_length_le {digits : Str} (hdigits : ∀ c ∈ digits, isdigit c = true)
    (hne : digits ≠ []) (hlength : digits.length ≤ 19) : ∃ val, stoull digits = some val := by
  have hlt := @foldl_digits_lt digits hdigits 0 0 (by norm_num)
  have hpow : 10 ^ (0 + digits.length) ≤ 10 ^ 19 := Nat.pow_le_pow_right (by norm_num) (by omega)
  have hfits : (10 : Nat) ^ 19 < 2 ^ 64 := by norm_num
  refine ⟨_, if_pos ⟨hne, ?_⟩⟩
  omega

theorem decimal_injective {m n : Nat} (h : decimal m = decimal n) : m = n := by
  rw [← foldl_decimal m, h, foldl_decimal]

theorem not_mem_decimal {c : UInt8} (hc : isdigit c = false) (n : Nat) : c ∉ decimal n := by
  intro h
  rw [isdigit_decimal h] at hc
  cases hc

/-- A 32-bit number has at most ten digits. -/
theorem length_decimal_le {n : Nat} (h : n < 2 ^ 32) : (decimal n).length ≤ 10 := by
  unfold decimal
  split_ifs with hn
  · simp
  · rw [List.length_map, List.length_reverse, Nat.digits_length_le_iff (by norm_num)]
    omega

end Mclog
