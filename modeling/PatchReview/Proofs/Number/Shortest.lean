import PatchReview.Json.Basic
import PatchReview.Proofs.Number.Rounding

set_option autoImplicit false

namespace PatchReview

namespace Decimal

def toRat (d : Decimal) : ℚ := d.digits * 10 ^ d.exponent

theorem den_pos (d : Decimal) : 0 < d.den := by
  rw [den]
  positivity

theorem num_eq (d : Decimal) : (d.num : ℚ) = d.toRat * d.den := by
  have hsplit : (10 : ℚ) ^ d.exponent.toNat = 10 ^ d.exponent * 10 ^ (-d.exponent).toNat := by
    rw [← zpow_natCast, ← zpow_natCast, ← zpow_add₀ (by norm_num)]
    congr 1
    omega
  rw [num, den, toRat]
  push_cast
  rw [hsplit, mul_assoc]

theorem cross_of_toRat {d : Decimal} {num den : ℕ} (h : (num : ℚ) = d.toRat * den) :
    d.num * den = num * d.den := by
  have hcast : (d.num : ℚ) * den = num * d.den := by
    rw [num_eq, h]
    ring
  exact_mod_cast hcast

theorem toRat_shift (digits : ℕ) (exponent : ℤ) (k : ℕ) :
    toRat ⟨digits * 10 ^ k, exponent⟩ = toRat ⟨digits, exponent + k⟩ := by
  simp only [toRat]
  rw [zpow_add₀ (by norm_num), zpow_natCast]
  push_cast
  ring

theorem toRat_stripFrom (fuel digits : ℕ) (exponent : ℤ) :
    (stripFrom fuel digits exponent).toRat = toRat ⟨digits, exponent⟩ := by
  induction fuel generalizing digits exponent with
  | zero => rfl
  | succ fuel ih =>
    rw [stripFrom]
    split
    case isTrue h =>
      have hdigits : digits / 10 * 10 ^ 1 = digits := by omega
      rw [ih]
      exact (toRat_shift (digits / 10) exponent 1).symm.trans (by rw [hdigits])
    case isFalse => rfl

end Decimal

namespace Binary64

open Decimal

theorem readsBack_iff {x : Binary64} {d : Decimal} :
    x.readsBack d ↔ ofFraction? x.negative d.num d.den = some x := by
  rw [readsBack, beq_iff_eq]

theorem readsBack_of_neighbour? {x : Binary64} {exponent : ℤ} {d : Decimal}
    (h : x.neighbour? exponent = some d) : x.readsBack d := by
  simp only [neighbour?] at h
  grind

theorem readsBack_congr {x : Binary64} {d d' : Decimal} (h : d.toRat = d'.toRat) :
    x.readsBack d ↔ x.readsBack d' := by
  have hcross : d.num * d'.den = d'.num * d.den := cross_of_toRat (by rw [h, d'.num_eq])
  rw [readsBack_iff, readsBack_iff, ofFraction?_congr d.den_pos d'.den_pos hcross]

theorem toRat_exactDecimal (x : Binary64) :
    x.exactDecimal.toRat = x.significand * 2 ^ x.exponent := by
  rw [exactDecimal, Decimal.toRat]
  split
  case isTrue h =>
    obtain ⟨n, hn⟩ : ∃ n : ℕ, x.exponent = -n := ⟨x.exponent.natAbs, by omega⟩
    have hten : (10 : ℚ) ^ n = 5 ^ n * 2 ^ n := by rw [← mul_pow]; norm_num
    have hfive : (5 : ℚ) ^ n ≠ 0 := by positivity
    simp only [hn, neg_neg, Int.toNat_natCast, zpow_neg, zpow_natCast, hten]
    push_cast
    rw [mul_inv, mul_assoc, mul_inv_cancel_left₀ hfive]
  case isFalse h =>
    obtain ⟨n, hn⟩ : ∃ n : ℕ, x.exponent = n := ⟨x.exponent.toNat, by omega⟩
    simp only [hn, Int.toNat_natCast, zpow_natCast, zpow_zero, mul_one]
    push_cast
    rfl

theorem readsBack_exactDecimal (x : Binary64) : x.readsBack x.exactDecimal := by
  have hcross : x.exactDecimal.num * x.den = x.num * x.exactDecimal.den :=
    cross_of_toRat (by rw [toRat_exactDecimal, Binary64.num_eq])
  rw [readsBack_iff, ofFraction?_congr (Decimal.den_pos _) x.den_pos hcross, ofFraction?_self]

/-- The shortest decimal of a number reads back as the number. -/
theorem readsBack_shortest (x : Binary64) : x.readsBack x.shortest := by
  rw [shortest, readsBack_congr (toRat_stripFrom ..)]
  cases hfound : (List.range 17).findSome? fun (n : ℕ) =>
      x.neighbour? (floorLog10 x.num x.den - n) with
  | none => exact x.readsBack_exactDecimal
  | some d =>
    obtain ⟨n, -, hn⟩ := List.exists_of_findSome?_eq_some hfound
    exact readsBack_of_neighbour? hn

theorem digits_ne_zero_of_readsBack {x : Binary64} (hx : x.significand ≠ 0) {d : Decimal}
    (h : x.readsBack d) : d.digits ≠ 0 := by
  intro h0
  have hnum : d.num = 0 := by rw [Decimal.num, h0, Nat.zero_mul]
  rw [readsBack_iff, ofFraction?, if_pos hnum] at h
  exact hx (by rw [← Option.some.inj h]; rfl)

end Binary64

theorem two_zpow_le {i : ℤ} {k : ℕ} (h : i ≤ 33 * k) : (2 : ℚ) ^ i ≤ 10 ^ (10 * k : ℤ) := by
  calc (2 : ℚ) ^ i ≤ 2 ^ (33 * k : ℤ) := zpow_le_zpow_right₀ one_le_two h
    _ = (2 ^ 33) ^ k := by rw [zpow_mul, zpow_natCast]; norm_cast
    _ ≤ (10 ^ 10) ^ k := by gcongr; norm_num
    _ = 10 ^ (10 * k : ℤ) := by rw [zpow_mul, zpow_natCast]; norm_cast

theorem length_toDigits_bounds {n : ℕ} (hn : n ≠ 0) :
    (n : ℚ) < 10 ^ ((Nat.toDigits 10 n).length : ℤ) ∧
      (10 : ℚ) ^ ((Nat.toDigits 10 n).length - 1 : ℤ) ≤ n := by
  have hpos : 0 < (Nat.toDigits 10 n).length := Nat.length_toDigits_pos
  constructor
  · have hlt : n < 10 ^ (Nat.toDigits 10 n).length :=
      (Nat.length_toDigits_le_iff (by decide) hpos).1 le_rfl
    rw [zpow_natCast]
    exact_mod_cast hlt
  · have hle : 10 ^ ((Nat.toDigits 10 n).length - 1) ≤ n := by
      rcases Nat.eq_zero_or_pos ((Nat.toDigits 10 n).length - 1) with h | h
      · rw [h, pow_zero]
        omega
      · have hiff := Nat.length_toDigits_le_iff (b := 10) (n := n) (by decide) h
        omega
    have hexp : ((Nat.toDigits 10 n).length - 1 : ℤ) = ((Nat.toDigits 10 n).length - 1 : ℕ) := by
      omega
    rw [hexp, zpow_natCast]
    exact_mod_cast hle

/-- The first digit of a decimal that reads back as a number other than zero stands within the
range of the numbers. -/
theorem Decimal.top_bounds {x : Binary64} (hx : x.significand ≠ 0) {d : Decimal}
    (h : x.readsBack d) :
    -330 < ((Nat.toDigits 10 d.digits).length : ℤ) + d.exponent ∧
      ((Nat.toDigits 10 d.digits).length : ℤ) + d.exponent ≤ 330 := by
  obtain ⟨hdigits, hdigits'⟩ := length_toDigits_bounds (Binary64.digits_ne_zero_of_readsBack hx h)
  obtain ⟨hlow, hhigh⟩ :=
    Binary64.value_bounds_of_ofFraction? d.den_pos (Binary64.readsBack_iff.1 h) hx
  have hden : (0 : ℚ) < d.den := by exact_mod_cast d.den_pos
  have hleast : (2 : ℚ) ^ (1075 : ℤ) ≤ 10 ^ (330 : ℤ) := two_zpow_le (k := 33) (by norm_num)
  have hlargest : (2 : ℚ) ^ (1024 : ℤ) ≤ 10 ^ (320 : ℤ) := two_zpow_le (k := 32) (by norm_num)
  -- The powers are too large to be computed with.
  generalize (2 : ℚ) ^ (1075 : ℤ) = least at hlow hleast
  generalize (2 : ℚ) ^ (1024 : ℤ) = largest at hhigh hlargest
  rw [d.num_eq, mul_right_comm] at hlow
  rw [d.num_eq, mul_comm (d.den : ℚ)] at hhigh
  have hlow' : 1 ≤ d.toRat * least := (le_mul_iff_one_le_left hden).1 hlow
  have hhigh' : d.toRat < largest := lt_of_mul_lt_mul_right hhigh hden.le
  rw [toRat] at hlow' hhigh'
  have hten (i j : ℤ) : (10 : ℚ) ^ i * 10 ^ j = 10 ^ (i + j) := (zpow_add₀ (by norm_num) i j).symm
  have hexp {i j : ℤ} : (10 : ℚ) ^ i < 10 ^ j ↔ i < j := zpow_lt_zpow_iff_right₀ (by norm_num)
  generalize ((Nat.toDigits 10 d.digits).length : ℤ) = n at *
  constructor
  · have hone : (10 : ℚ) ^ (0 : ℤ) < 10 ^ (n + d.exponent + 330) := by
      calc (10 : ℚ) ^ (0 : ℤ) ≤ d.digits * 10 ^ d.exponent * least := hlow'
        _ ≤ d.digits * 10 ^ d.exponent * 10 ^ (330 : ℤ) := by gcongr
        _ < 10 ^ n * 10 ^ d.exponent * 10 ^ (330 : ℤ) := by gcongr
        _ = 10 ^ (n + d.exponent + 330) := by rw [hten, hten]
    have hpos := hexp.1 hone
    omega
  · have hbound : (10 : ℚ) ^ (n - 1 + d.exponent) < 10 ^ (320 : ℤ) := by
      calc (10 : ℚ) ^ (n - 1 + d.exponent) = 10 ^ (n - 1) * 10 ^ d.exponent := (hten _ _).symm
        _ ≤ d.digits * 10 ^ d.exponent := by gcongr
        _ < largest := hhigh'
        _ ≤ 10 ^ (320 : ℤ) := hlargest
    have hlt := hexp.1 hbound
    omega

theorem Number.ofDecimal_eq {x : Binary64} (hx : x.significand ≠ 0) {d : Decimal}
    (h : x.readsBack d) : ofDecimal x.negative d.digits d.exponent = double x := by
  have hzero := Binary64.digits_ne_zero_of_readsBack hx h
  obtain ⟨hlow, hhigh⟩ := d.top_bounds hx h
  have hguard : ¬(decide (d.digits = 0) ||
      decide (((Nat.toDigits 10 d.digits).length : ℤ) + d.exponent < -330)) := by
    simp [hzero, hlow.le]
  simp only [ofDecimal, if_neg hguard, if_neg (not_lt.2 hhigh)]
  rw [Binary64.readsBack_iff.1 h]

end PatchReview
