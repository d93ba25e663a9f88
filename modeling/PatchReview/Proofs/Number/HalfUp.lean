import PatchReview.Proofs.Number.Precision

/-!
Quotients of counts in floating point. Rounding never crosses a number, and below `2 ^ 50` its
error is too small to reach the next multiple of the denominator; so a rounded quotient compares
with whole numbers as the exact one does, and rounds half up to the same whole number. Main
statements: `Binary64.lt_nearest_div_iff` and `Binary64.floor_nearest_div_add_half`.
-/

set_option autoImplicit false

namespace PatchReview

def halfUp (num den : ℕ) : ℕ := (2 * num + den) / (2 * den)

theorem halfUp_bounds (num : ℕ) {den : ℕ} (hden : 0 < den) :
    (halfUp num den : ℚ) ≤ num / den + 1 / 2 ∧
      (num / den : ℚ) + 1 / 2 ≤ halfUp num den + 1 - 1 / 2 / den := by
  obtain ⟨n, hn⟩ : ∃ n, halfUp num den = n := ⟨_, rfl⟩
  have hlow : n * (2 * den) ≤ 2 * num + den := (Nat.le_div_iff_mul_le (by omega)).1 hn.ge
  have hhigh : 2 * num + den + 1 ≤ (n + 1) * (2 * den) :=
    (Nat.div_lt_iff_lt_mul (by omega)).1 (Nat.lt_succ_of_le hn.le)
  have hden' : (0 : ℚ) < den := by exact_mod_cast hden
  have hsum : (num / den : ℚ) + 1 / 2 = (2 * num + den) / (2 * den) := by field_simp
  rw [hn, hsum, le_div_iff₀ (by positivity), div_le_iff₀ (by positivity), sub_mul]
  have hcancel : 1 / 2 / (den : ℚ) * (2 * den) = 1 := by field_simp
  have hhigh' : 2 * (num : ℚ) + den + 1 ≤ (n + 1) * (2 * den) := by exact_mod_cast hhigh
  exact ⟨by exact_mod_cast hlow, by linarith⟩

theorem halfUp_le (num : ℕ) {den : ℕ} (hden : 0 < den) : halfUp num den ≤ num + 1 := by
  have hhalf : (2 * num + den) / (2 * den) ≤ (2 * num + 1) * den / (2 * den) :=
    Nat.div_le_div_right (by nlinarith)
  rw [Nat.mul_div_mul_right _ _ hden] at hhalf
  exact hhalf.trans (by omega)

namespace Binary64

section order

variable {q : ℚ} {n : ℕ} {f : ℤ} (hq : 0 ≤ q) (h : q ≤ safeBound) (hn : n < 2 ^ 53)
  (hf : -1074 ≤ f)

include hn in
theorem scale_lt {e : ℤ} (hfe : f < e) : (n : ℚ) * 2 ^ f < 2 ^ (e + 52) := by
  have hn' : (n : ℚ) < 2 ^ (53 : ℤ) := by exact_mod_cast hn
  calc (n : ℚ) * 2 ^ f < 2 ^ (53 : ℤ) * 2 ^ f := by gcongr
    _ = 2 ^ (53 + f) := (zpow_add₀ two_ne_zero _ _).symm
    _ ≤ 2 ^ (e + 52) := zpow_le_zpow_right₀ one_le_two (by omega)

theorem scale_eq {e : ℤ} (hef : e ≤ f) : (n : ℚ) * 2 ^ f = (n * 2 ^ (f - e).toNat : ℕ) * 2 ^ e := by
  have hsplit : (2 : ℚ) ^ f = 2 ^ (f - e).toNat * 2 ^ e := by
    rw [← zpow_natCast, ← zpow_add₀ two_ne_zero]
    congr 1
    omega
  push_cast
  rw [hsplit, mul_assoc]

include hq h hn hf

theorem le_toRat_nearest (hle : n * (2 : ℚ) ^ f ≤ q) : n * (2 : ℚ) ^ f ≤ (nearest q).toRat := by
  obtain ⟨num, den, hden, rfl⟩ := exists_fraction hq
  rcases Nat.eq_zero_or_pos num with rfl | hnum
  · have hzero : ((0 : ℕ) / den : ℚ) = 0 := by rw [Nat.cast_zero, zero_div]
    exact (hle.trans hzero.le).trans (toRat_nearest_nonneg hq h)
  have hden' : (0 : ℚ) < den := by exact_mod_cast hden
  obtain ⟨e, hvalue, hstep, -⟩ := exists_steps_nearest hnum hden h
  have hround {bound : ℕ} (hbound : (bound : ℚ) * 2 ^ e ≤ num / den) :
      (bound : ℚ) * 2 ^ e ≤ (nearest (num / den)).toRat := by
    rw [hvalue]
    gcongr
    refine le_roundHalfEven (by positivity) ((le_scaled_iff e).2 ?_)
    rw [mul_left_comm]
    exact (le_div_iff₀' hden').1 hbound
  -- The number is a whole number of steps, or below the least value with steps as large.
  rcases le_or_gt e f with hef | hfe
  · rw [scale_eq hef] at hle ⊢
    exact hround hle
  · have hnormal : den * (2 : ℚ) ^ (e + 52) ≤ num := hstep.resolve_left (by omega)
    have hpow : (2 : ℚ) ^ (e + 52) = (2 ^ 52 : ℕ) * 2 ^ e := by
      rw [zpow_add₀ two_ne_zero, mul_comm]
      norm_num
    have hleast := hround (hpow.symm.trans_le ((le_div_iff₀' hden').2 hnormal))
    exact (scale_lt hn hfe).le.trans (hpow.trans_le hleast)

theorem toRat_nearest_le (hle : q ≤ n * (2 : ℚ) ^ f) : (nearest q).toRat ≤ n * (2 : ℚ) ^ f := by
  obtain ⟨num, den, hden, rfl⟩ := exists_fraction hq
  rcases Nat.eq_zero_or_pos num with rfl | hnum
  · rw [Nat.cast_zero, zero_div, toRat_nearest_zero]
    positivity
  have hden' : (0 : ℚ) < den := by exact_mod_cast hden
  obtain ⟨e, hvalue, hstep, -⟩ := exists_steps_nearest hnum hden h
  rcases le_or_gt e f with hef | hfe
  · rw [scale_eq hef] at hle ⊢
    rw [hvalue]
    gcongr
    refine roundHalfEven_le (by positivity) ((scaled_le_iff e).2 ?_)
    rw [mul_left_comm]
    exact (div_le_iff₀' hden').1 hle
  · have hnormal : den * (2 : ℚ) ^ (e + 52) ≤ num := hstep.resolve_left (by omega)
    have habove : (2 : ℚ) ^ (e + 52) ≤ num / den := (le_div_iff₀' hden').2 hnormal
    exact absurd (habove.trans hle) (not_le.2 (scale_lt hn hfe))

end order

theorem toRat_nearest_self {n : ℕ} {f : ℤ} (hn : n < 2 ^ 53) (hf : -1074 ≤ f)
    (h : n * (2 : ℚ) ^ f ≤ safeBound) : (nearest (n * 2 ^ f)).toRat = n * 2 ^ f := by
  have hpos : (0 : ℚ) ≤ n * 2 ^ f := by positivity
  exact le_antisymm (toRat_nearest_le hpos h hn hf le_rfl) (le_toRat_nearest hpos h hn hf le_rfl)

section whole

variable {q : ℚ} {n : ℕ} (hq : 0 ≤ q) (h : q ≤ safeBound)
include hq h

theorem natCast_le_toRat_nearest (hn : n < 2 ^ 53) (hle : n ≤ q) : n ≤ (nearest q).toRat := by
  have hone : (n : ℚ) * 2 ^ (0 : ℤ) = n := by rw [zpow_zero, mul_one]
  have hround := le_toRat_nearest hq h hn (by decide) (hone.trans_le hle)
  rwa [hone] at hround

theorem toRat_nearest_le_natCast (hn : n < 2 ^ 53) (hle : q ≤ n) : (nearest q).toRat ≤ n := by
  have hone : (n : ℚ) * 2 ^ (0 : ℤ) = n := by rw [zpow_zero, mul_one]
  have hround := toRat_nearest_le hq h hn (by decide) (hle.trans_eq hone.symm)
  rwa [hone] at hround

theorem sub_half_le_toRat_nearest (hn : n ≤ 2 ^ 52) (hle : (n : ℚ) - 1 / 2 ≤ q) :
    (n : ℚ) - 1 / 2 ≤ (nearest q).toRat := by
  rcases Nat.eq_zero_or_pos n with rfl | hpos
  · have hnonneg := toRat_nearest_nonneg hq h
    push_cast
    linarith
  · have hhalf : ((2 * n - 1 : ℕ) : ℚ) * 2 ^ (-1 : ℤ) = n - 1 / 2 := by
      rw [Nat.cast_sub (by omega), zpow_neg_one]
      push_cast
      ring
    have hround := le_toRat_nearest hq h (n := 2 * n - 1) (by omega) (f := -1) (by decide)
      (hhalf.trans_le hle)
    rwa [hhalf] at hround

end whole

theorem toRat_nearest_natCast {n : ℕ} (hn : n < 2 ^ 53) : (nearest n).toRat = n := by
  have hpos : (0 : ℚ) ≤ n := Nat.cast_nonneg n
  have hle : (n : ℚ) ≤ 2 ^ 53 := by exact_mod_cast hn.le
  have hsafe := hle.trans (two_pow_le_safeBound (by decide))
  exact le_antisymm (toRat_nearest_le_natCast hpos hsafe hn le_rfl)
    (natCast_le_toRat_nearest hpos hsafe hn le_rfl)

theorem le_safeBound_of_mul_le {q : ℚ} {den k : ℕ} (hq : 0 ≤ q) (hden : 0 < den)
    (h : q * den ≤ 2 ^ k) (hk : k ≤ 1022) : q ≤ safeBound := by
  have hone : (1 : ℚ) ≤ den := by exact_mod_cast hden
  exact ((le_mul_of_one_le_right hq hone).trans h).trans (two_pow_le_safeBound hk)

/-- The error as a part of a denominator. -/
theorem abs_nearest_sub_le_of_mul_le {q : ℚ} {den k : ℕ} (hq : 0 ≤ q) (hden : 0 < den)
    (hden' : den ≤ 2 ^ k) (h : q * den ≤ 2 ^ k) (hk : k ≤ 1022) :
    |(nearest q).toRat - q| ≤ 2 ^ k / 2 ^ 53 / den := by
  have hpos : (0 : ℚ) < den := by exact_mod_cast hden
  have hle : (den : ℚ) ≤ 2 ^ k := by exact_mod_cast hden'
  refine (abs_nearest_sub_le hq (le_safeBound_of_mul_le hq hden h hk)).trans ?_
  rw [div_right_comm]
  refine max_le ?_ ?_
  · gcongr
    exact (le_div_iff₀ hpos).2 h
  · calc (1 : ℚ) / 2 ^ 1075 ≤ 1 / 2 ^ 53 :=
        one_div_le_one_div_of_le (by positivity) (pow_le_pow_right₀ one_le_two (by decide))
      _ ≤ 2 ^ k / den / 2 ^ 53 := by
        gcongr
        exact (one_le_div hpos).2 hle

theorem div_mul_le {num den k : ℕ} (hnum : num < 2 ^ k) (hpos : 0 < den) :
    (num / den : ℚ) * den ≤ 2 ^ k := by
  have hpos' : (den : ℚ) ≠ 0 := by exact_mod_cast hpos.ne'
  rw [div_mul_cancel₀ _ hpos']
  exact_mod_cast hnum.le

section quotient

variable {num den : ℕ} (hnum : num < 2 ^ 50) (hden : den < 2 ^ 50) (hpos : 0 < den)

include hnum hpos

theorem div_le_safeBound : (num / den : ℚ) ≤ safeBound :=
  le_safeBound_of_mul_le (by positivity) hpos (div_mul_le hnum hpos) (by decide)

include hden

theorem abs_nearest_div_sub_le : |(nearest (num / den)).toRat - num / den| ≤ 1 / 8 / den := by
  refine (abs_nearest_sub_le_of_mul_le (by positivity) hpos hden.le (div_mul_le hnum hpos)
    (by decide)).trans_eq ?_
  norm_num

theorem lt_nearest_div_iff {b : ℕ} (hb : b < 2 ^ 53) :
    (b : ℚ) < (nearest (num / den)).toRat ↔ b * den < num := by
  have hpos' : (0 : ℚ) < den := by exact_mod_cast hpos
  constructor
  · intro h
    by_contra hge
    have hle : (num / den : ℚ) ≤ b := by
      rw [div_le_iff₀ hpos']
      exact_mod_cast not_lt.1 hge
    exact absurd h (not_lt.2
      (toRat_nearest_le_natCast (by positivity) (div_le_safeBound hnum hpos) hb hle))
  · intro h
    have hsucc : (b : ℚ) * den + 1 ≤ num := by exact_mod_cast h
    have hstep : (b : ℚ) + 1 / den ≤ num / den := by
      calc (b : ℚ) + 1 / den = (b * den + 1) / den := by field_simp
        _ ≤ num / den := by gcongr
    have hround := (abs_sub_le_iff.1 (abs_nearest_div_sub_le hnum hden hpos)).2
    have hslack : (1 : ℚ) / 8 / den < 1 / den := by
      gcongr
      norm_num
    linarith

section sum

variable {y : ℚ} (hhigh : y ≤ num / den + 1 / 8 / den)
include hhigh

theorem add_half_mul_le : (y + 1 / 2) * den ≤ 2 ^ 51 := by
  have hpos' : (0 : ℚ) < den := by exact_mod_cast hpos
  have hnum' : (num : ℚ) ≤ 2 ^ 50 := by exact_mod_cast hnum.le
  have hden' : (den : ℚ) + 1 ≤ 2 ^ 50 := by exact_mod_cast hden
  calc (y + 1 / 2) * den ≤ (num / den + 1 / 8 / den + 1 / 2) * den := by gcongr
    _ = num + 1 / 8 + den / 2 := by field_simp
    _ ≤ 2 ^ 51 := by linarith

/-- A half added, the sum rounded, and its fraction dropped: for a value that is hardly above a
quotient and not below a half that the quotient reaches, this rounds the quotient half up. -/
theorem floor_nearest_add_half (hlow : (halfUp num den : ℚ) - 1 / 2 ≤ y) :
    ⌊(nearest (y + 1 / 2)).toRat⌋ = halfUp num den := by
  obtain ⟨-, hnext⟩ := halfUp_bounds num hpos
  have hle := halfUp_le num hpos
  generalize halfUp num den = n at *
  have hmul := add_half_mul_le hnum hden hpos hhigh
  have hsum : 0 ≤ y + 1 / 2 := by
    have hnonneg : (0 : ℚ) ≤ n := Nat.cast_nonneg n
    linarith
  have hfloor := natCast_le_toRat_nearest (n := n) hsum
    (le_safeBound_of_mul_le hsum hpos hmul (by decide)) (by omega) (by linarith)
  have hround := (abs_sub_le_iff.1 (abs_nearest_sub_le_of_mul_le hsum hpos
    (hden.le.trans (by decide)) hmul (by decide))).1
  have hslack : 1 / 8 / (den : ℚ) + 2 ^ 51 / 2 ^ 53 / den < 1 / 2 / den := by
    have hpos' : (0 : ℚ) < den := by exact_mod_cast hpos
    rw [← add_div]
    gcongr
    norm_num
  rw [Int.floor_eq_iff, Int.cast_natCast]
  exact ⟨hfloor, by linarith⟩

end sum

theorem floor_nearest_div_add_half :
    ⌊(nearest ((nearest (num / den)).toRat + 1 / 2)).toRat⌋ = halfUp num den := by
  obtain ⟨hlow, -⟩ := halfUp_bounds num hpos
  have hle := halfUp_le num hpos
  have hround := (abs_sub_le_iff.1 (abs_nearest_div_sub_le hnum hden hpos)).1
  -- A half below a whole number is a number too, so the quotient is not rounded below it.
  exact floor_nearest_add_half hnum hden hpos (by linarith)
    (sub_half_le_toRat_nearest (by positivity) (div_le_safeBound hnum hpos) (by omega)
      (by linarith))

end quotient

end Binary64

end PatchReview
