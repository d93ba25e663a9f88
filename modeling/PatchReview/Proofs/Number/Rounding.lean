import PatchReview.Number.Binary64
import PatchReview.Proofs.Number.Range

set_option autoImplicit false

namespace PatchReview

theorem roundHalfEven_mul_right (num den : ℕ) {c : ℕ} (hc : 0 < c) :
    roundHalfEven (num * c) (den * c) = roundHalfEven num den := by
  have hmod : num * c % (den * c) = num % den * c := Nat.mul_mod_mul_right c num den
  have hbelow : 2 * (num % den * c) < den * c ↔ 2 * (num % den) < den := by
    rw [← Nat.mul_assoc, Nat.mul_lt_mul_right hc]
  have habove : den * c < 2 * (num % den * c) ↔ den < 2 * (num % den) := by
    rw [← Nat.mul_assoc, Nat.mul_lt_mul_right hc]
  simp only [roundHalfEven, Nat.mul_div_mul_right num den hc, hmod, hbelow, habove]

theorem roundHalfEven_congr {num den num' den' : ℕ} (hden : 0 < den) (hden' : 0 < den')
    (h : num * den' = num' * den) : roundHalfEven num den = roundHalfEven num' den' := by
  calc roundHalfEven num den = roundHalfEven (num * den') (den * den') :=
        (roundHalfEven_mul_right num den hden').symm
    _ = roundHalfEven (num' * den) (den' * den) := by rw [h, Nat.mul_comm den]
    _ = roundHalfEven num' den' := roundHalfEven_mul_right num' den' hden

theorem roundHalfEven_self (num : ℕ) {den : ℕ} (hden : 0 < den) :
    roundHalfEven (num * den) den = num := by
  have h := roundHalfEven_mul_right num 1 hden
  rw [Nat.one_mul] at h
  rw [h]
  simp [roundHalfEven, Nat.mod_one]

theorem floorLog2_eq {num den : ℕ} {k : ℤ} (hden : 0 < den) (hlow : den * (2 : ℚ) ^ k ≤ num)
    (hhigh : (num : ℚ) < den * 2 ^ (k + 1)) : floorLog2 num den = k := by
  have hden' : (0 : ℚ) < den := by exact_mod_cast hden
  have hnum : 0 < num := by
    have hpos : (0 : ℚ) < num := lt_of_lt_of_le (by positivity) hlow
    exact_mod_cast hpos
  obtain ⟨hlow', hhigh'⟩ := floorLog2_spec hnum hden
  have hpow {i j : ℤ} (hi : den * (2 : ℚ) ^ i ≤ num) (hj : (num : ℚ) < den * 2 ^ (j + 1)) :
      i ≤ j := by
    have hlt : (2 : ℚ) ^ i < 2 ^ (j + 1) := lt_of_mul_lt_mul_left (hi.trans_lt hj) hden'.le
    have hexp := (zpow_lt_zpow_iff_right₀ one_lt_two).1 hlt
    omega
  exact le_antisymm (hpow hlow' hhigh) (hpow hlow hhigh')

section congr

variable {num den num' den' : ℕ} (hden : 0 < den) (hden' : 0 < den')
  (h : num * den' = num' * den)
include hden hden' h

theorem num_eq_zero_iff : num = 0 ↔ num' = 0 := by
  constructor
  · rintro rfl
    exact (Nat.mul_eq_zero.1 (h.symm.trans (Nat.zero_mul den'))).resolve_right hden.ne'
  · rintro rfl
    exact (Nat.mul_eq_zero.1 (h.trans (Nat.zero_mul den))).resolve_right hden'.ne'

theorem floorLog2_congr (hnum : 0 < num') : floorLog2 num den = floorLog2 num' den' := by
  obtain ⟨hlow, hhigh⟩ := floorLog2_spec hnum hden'
  have hpos : (0 : ℚ) < den := by exact_mod_cast hden
  have hpos' : (0 : ℚ) < den' := by exact_mod_cast hden'
  have hcross : (num : ℚ) * den' = num' * den := by exact_mod_cast h
  refine floorLog2_eq hden (le_of_mul_le_mul_right ?_ hpos') (lt_of_mul_lt_mul_right ?_ hpos'.le)
  · calc den * (2 : ℚ) ^ floorLog2 num' den' * den'
        = den * (den' * 2 ^ floorLog2 num' den') := by ring
      _ ≤ den * num' := by gcongr
      _ = num * den' := by rw [hcross, mul_comm]
  · calc (num : ℚ) * den' = den * num' := by rw [hcross, mul_comm]
      _ < den * (den' * 2 ^ (floorLog2 num' den' + 1)) := by gcongr
      _ = den * 2 ^ (floorLog2 num' den' + 1) * den' := by ring

theorem Binary64.ofFraction?_congr (negative : Bool) :
    ofFraction? negative num den = ofFraction? negative num' den' := by
  by_cases hnum : num' = 0
  · rw [ofFraction?, ofFraction?, if_pos hnum, if_pos ((num_eq_zero_iff hden hden' h).2 hnum)]
  · have hnum' : num ≠ 0 := fun h0 => hnum ((num_eq_zero_iff hden hden' h).1 h0)
    have hround (e : ℤ) : roundHalfEven (num * 2 ^ (-e).toNat) (den * 2 ^ e.toNat) =
        roundHalfEven (num' * 2 ^ (-e).toNat) (den' * 2 ^ e.toNat) := by
      refine roundHalfEven_congr (by positivity) (by positivity) ?_
      calc num * 2 ^ (-e).toNat * (den' * 2 ^ e.toNat)
          = num * den' * (2 ^ (-e).toNat * 2 ^ e.toNat) := by ring
        _ = num' * 2 ^ (-e).toNat * (den * 2 ^ e.toNat) := by rw [h]; ring
    rw [ofFraction?, ofFraction?, if_neg hnum, if_neg hnum',
      floorLog2_congr hden hden' h (Nat.pos_of_ne_zero hnum)]
    simp only [hround]

end congr

namespace Binary64

theorem den_pos (x : Binary64) : 0 < x.den := by
  rw [den]
  positivity

theorem num_eq (x : Binary64) : (x.num : ℚ) = x.significand * 2 ^ x.exponent * x.den :=
  cast_mul_two_pow x.significand x.exponent

theorem eq_zero_of_significand {x : Binary64} (h : x.significand = 0) : x = zero x.negative := by
  have hexp : x.exponent = -1074 := x.normal.resolve_left (by rw [h]; decide)
  obtain ⟨negative, significand, exponent, _, _, _, _⟩ := x
  subst h hexp
  rfl

/-- A number is what its own value is rounded to. -/
theorem ofFraction?_self (x : Binary64) : ofFraction? x.negative x.num x.den = some x := by
  by_cases hzero : x.significand = 0
  · have hnum : x.num = 0 := by rw [num, hzero, Nat.zero_mul]
    rw [ofFraction?, if_pos hnum, ← eq_zero_of_significand hzero]
  have hs : (0 : ℚ) < x.significand := by exact_mod_cast Nat.pos_of_ne_zero hzero
  have hnum : x.num ≠ 0 := by
    rw [num]
    positivity
  have hden : (0 : ℚ) < x.den := by exact_mod_cast x.den_pos
  obtain ⟨hlog, hlog'⟩ := cast_log2_bounds (Nat.pos_of_ne_zero hzero)
  have hfloor : floorLog2 x.num x.den = x.significand.log2 + x.exponent := by
    refine floorLog2_eq x.den_pos ?_ ?_
    · rw [num_eq, zpow_add₀ two_ne_zero, mul_comm]
      gcongr
    · rw [num_eq, add_right_comm, zpow_add₀ two_ne_zero, mul_comm (x.den : ℚ)]
      gcongr
  have hexp : max (-1074) (floorLog2 x.num x.den - 52) = x.exponent := by
    have hlt : x.significand.log2 < 53 := (Nat.log2_lt hzero).2 x.significand_lt
    have hge := x.exponent_ge
    rcases x.normal with hnormal | hleast
    · have hle : 52 ≤ x.significand.log2 := (Nat.le_log2 hzero).2 hnormal
      omega
    · omega
  have hround : roundHalfEven (x.num * 2 ^ (-x.exponent).toNat) (x.den * 2 ^ x.exponent.toNat) =
      x.significand := by
    have hscaled : x.num * 2 ^ (-x.exponent).toNat =
        x.significand * (x.den * 2 ^ x.exponent.toNat) := by
      rw [num, den]
      ring
    rw [hscaled]
    exact roundHalfEven_self _ (Nat.mul_pos x.den_pos (by positivity))
  rw [ofFraction?, if_neg hnum]
  simp only [hexp, hround]
  rw [if_neg x.significand_lt.ne]
  exact ofParts?_eq_some x.significand_lt x.exponent_ge x.exponent_le x.normal

theorem ofParts?_inv {negative : Bool} {significand : ℕ} {exponent : ℤ} {x : Binary64}
    (h : ofParts? negative significand exponent = some x) :
    x.significand = significand ∧ exponent ≤ 971 := by
  rw [ofParts?] at h
  split_ifs at h with _ _ hle _
  exact ⟨by rw [← Option.some.inj h], hle⟩

theorem value_bounds_of_ofFraction? {negative : Bool} {num den : ℕ} {x : Binary64}
    (hden : 0 < den) (h : ofFraction? negative num den = some x) (hx : x.significand ≠ 0) :
    (den : ℚ) ≤ num * 2 ^ (1075 : ℤ) ∧ (num : ℚ) < den * 2 ^ (1024 : ℤ) := by
  have hnum : num ≠ 0 := by
    rintro rfl
    rw [ofFraction?, if_pos rfl] at h
    exact hx (by rw [← Option.some.inj h]; rfl)
  obtain ⟨-, hhigh⟩ := floorLog2_spec (Nat.pos_of_ne_zero hnum) hden
  simp only [ofFraction?, if_neg hnum] at h
  generalize floorLog2 num den = k at *
  obtain ⟨e, he, hge, hke⟩ : ∃ e, max (-1074) (k - 52) = e ∧ -1074 ≤ e ∧ k ≤ e + 52 :=
    ⟨_, rfl, by omega⟩
  rw [he] at h
  obtain ⟨m, hm⟩ : ∃ m, roundHalfEven (num * 2 ^ (-e).toNat) (den * 2 ^ e.toNat) = m := ⟨_, rfl⟩
  rw [hm] at h
  have hle : e ≤ 971 ∧ m ≠ 0 := by
    split_ifs at h with htop
    · have htop' := (ofParts?_inv h).2
      exact ⟨by omega, by rw [htop]; positivity⟩
    · obtain ⟨hsig, hle⟩ := ofParts?_inv h
      exact ⟨hle, hsig ▸ hx⟩
  have hden' : (0 : ℚ) < den := by exact_mod_cast hden
  constructor
  · have hround := roundHalfEven_mul_le (num * 2 ^ (-e).toNat) (den * 2 ^ e.toNat)
    rw [hm, ← mul_assoc 2, le_scaled_iff] at hround
    have hone : (1 : ℚ) ≤ m := by exact_mod_cast Nat.one_le_iff_ne_zero.2 hle.2
    have hmin : (2 : ℚ) ^ (-1074 : ℤ) ≤ 2 ^ e := zpow_le_zpow_right₀ one_le_two hge
    have hscale : (2 : ℚ) ^ (1075 : ℤ) * 2 ^ (-1074 : ℤ) = 2 := by
      rw [← zpow_add₀ two_ne_zero]
      norm_num
    have hpos : (0 : ℚ) < 2 ^ (1075 : ℤ) := by positivity
    push_cast at hround
    have hstep : den * (2 : ℚ) ^ (-1074 : ℤ) ≤ 2 * num := by
      calc den * (2 : ℚ) ^ (-1074 : ℤ) ≤ den * 2 ^ e := by gcongr
        _ ≤ m * (den * 2 ^ e) := le_mul_of_one_le_left (by positivity) hone
        _ ≤ 2 * num := hround
    have hmul := mul_le_mul_of_nonneg_left hstep hpos.le
    have hleft : (2 : ℚ) ^ (1075 : ℤ) * (den * 2 ^ (-1074 : ℤ)) = 2 * den := by
      rw [mul_left_comm, hscale, mul_comm]
    rw [hleft] at hmul
    linarith
  · calc (num : ℚ) < den * 2 ^ (k + 1) := hhigh
      _ ≤ den * 2 ^ (1024 : ℤ) :=
        mul_le_mul_of_nonneg_left (zpow_le_zpow_right₀ one_le_two (by omega)) hden'.le

end Binary64

end PatchReview
