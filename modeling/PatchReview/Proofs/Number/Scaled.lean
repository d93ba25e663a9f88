import PatchReview.Proofs.Number.Nearest

/-!
Quotients that are multiplied before they are rounded half up. The product is near the exact one;
what is left to see is that it does not miss a half that the exact product is. Ten keeps halves: a
half divided by ten is off by at most two fifths of a step, and the tie that the multiplication
leaves goes to the half, whose significand is even. Main statements: `Binary64.keepsHalves_ten` and
`Binary64.floor_nearest_mul_add_half`.
-/

set_option autoImplicit false

namespace PatchReview

theorem abs_roundHalfEven_five_sub_le (n : ℕ) : |(roundHalfEven n 5 : ℚ) * 5 - n| ≤ 2 := by
  have hbounds : roundHalfEven n 5 * 5 ≤ n + 2 ∧ n ≤ roundHalfEven n 5 * 5 + 2 := by
    rcases roundHalfEven_cases n 5 with ⟨h, hhalf⟩ | ⟨h, hhalf⟩ <;> omega
  obtain ⟨hhigh, hlow⟩ : (roundHalfEven n 5 : ℚ) * 5 ≤ n + 2 ∧
      (n : ℚ) ≤ roundHalfEven n 5 * 5 + 2 := by exact_mod_cast hbounds
  exact abs_sub_le_iff.2 ⟨by linarith, by linarith⟩

namespace Binary64

/-- Halves that are divided by the scale and multiplied by it are what they were. -/
def KeepsHalves (scale : ℕ) : Prop :=
  ∀ n : ℕ, n < 2 ^ 45 →
    (nearest ((nearest (n / (2 * scale : ℕ))).toRat * scale)).toRat = n / 2

theorem keepsHalves_one : KeepsHalves 1 := by
  intro n hn
  have hhalf : (n / (2 * 1 : ℕ) : ℚ) = n * 2 ^ (-1 : ℤ) := by
    rw [zpow_neg_one, Nat.mul_one, Nat.cast_ofNat, div_eq_mul_inv]
  have hsafe : (n : ℚ) * 2 ^ (-1 : ℤ) ≤ safeBound := by
    have hle : (n : ℚ) ≤ 2 ^ 45 := by exact_mod_cast hn.le
    refine le_trans ?_ (two_pow_le_safeBound (k := 45) (by decide))
    rw [zpow_neg_one]
    linarith
  have hself := toRat_nearest_self (hn.trans (by decide)) (by decide) hsafe
  rw [hhalf, hself, Nat.cast_one, mul_one, hself, zpow_neg_one, div_eq_mul_inv]

theorem abs_twentieth_steps_sub_le (n : ℕ) {e : ℤ} (he : e ≤ -2) :
    |(roundHalfEven (n * 2 ^ (-e).toNat) (20 * 2 ^ e.toNat) : ℚ) * 2 ^ e * 10 - n / 2| ≤
      4 * 2 ^ e := by
  obtain ⟨w, hw⟩ : ∃ w, n * 2 ^ (-2 - e).toNat = w := ⟨_, rfl⟩
  have hnum : n * 2 ^ (-e).toNat = w * 4 := by
    have hsplit : (-e).toNat = (-2 - e).toNat + 2 := by omega
    rw [hsplit, pow_add, ← hw, Nat.mul_assoc]
    norm_num
  have hden : 20 * 2 ^ e.toNat = 5 * 4 := by
    have hzero : e.toNat = 0 := by omega
    norm_num [hzero]
  have hquarter : (n : ℚ) / 4 = w * 2 ^ e := by
    have hscale := @scale_eq n (-2) e he
    rw [hw] at hscale
    rw [← hscale, div_eq_mul_inv]
    norm_num
  have hfive := abs_roundHalfEven_five_sub_le w
  rw [hnum, hden, roundHalfEven_mul_right _ _ (by decide)]
  generalize (roundHalfEven w 5 : ℚ) = m at *
  have htwo : (0 : ℚ) < 2 * 2 ^ e := by positivity
  calc |m * 2 ^ e * 10 - n / 2| = |(m * 5 - w) * (2 * 2 ^ e)| := by
        have htwice : (n : ℚ) / 2 = 2 * (w * 2 ^ e) := by rw [← hquarter]; ring
        rw [htwice]
        congr 1
        ring
    _ = |m * 5 - w| * (2 * 2 ^ e) := by rw [abs_mul, abs_of_pos htwo]
    _ ≤ 2 * (2 * 2 ^ e) := by gcongr
    _ = 4 * 2 ^ e := by ring

theorem exists_steps_div_twenty {n : ℕ} (hpos : 0 < n) (hn : n < 2 ^ 45) :
    ∃ e : ℤ, -58 ≤ e ∧ e ≤ -12 ∧ 20 * (2 : ℚ) ^ (e + 52) ≤ n ∧ (n : ℚ) < 20 * 2 ^ (e + 53) ∧
      |(nearest (n / (20 : ℕ))).toRat * 10 - n / 2| ≤ 4 * 2 ^ e := by
  have hone : (1 : ℚ) ≤ n := by exact_mod_cast hpos
  have hsmall : (n : ℚ) < 2 ^ (45 : ℤ) := by exact_mod_cast hn
  have hsafe : (n / (20 : ℕ) : ℚ) ≤ safeBound :=
    le_safeBound_of_mul_le (by positivity) (by decide) (div_mul_le hn (by decide)) (by decide)
  obtain ⟨e, hvalue, hstep, htop⟩ := exists_steps_nearest hpos (by decide) hsafe
  rw [Nat.cast_ofNat] at hstep htop
  have hstep_pos : (0 : ℚ) < 2 ^ e := by positivity
  have hge : -58 ≤ e := by
    have hlt : (2 : ℚ) ^ (0 : ℤ) < 2 ^ (e + 58) := by
      rw [two_zpow_add_ofNat] at htop ⊢
      rw [zpow_zero]
      linarith
    have hexp := (zpow_lt_zpow_iff_right₀ one_lt_two).1 hlt
    omega
  have hlow : 20 * (2 : ℚ) ^ (e + 52) ≤ n := hstep.resolve_left (by omega)
  have hle : e ≤ -12 := by
    have hlt : (2 : ℚ) ^ (e + 56) < 2 ^ (45 : ℤ) := by
      rw [two_zpow_add_ofNat] at hlow ⊢
      linarith
    have hexp := (zpow_lt_zpow_iff_right₀ one_lt_two).1 hlt
    omega
  refine ⟨e, hge, hle, hlow, htop, ?_⟩
  rw [hvalue]
  exact abs_twentieth_steps_sub_le n (by omega)

/-- A half that is divided by ten comes back to at most half a step of the product from itself. -/
theorem keepsHalves_ten : KeepsHalves 10 := by
  intro n hn
  rcases Nat.eq_zero_or_pos n with rfl | hpos
  · simp [toRat_nearest_zero]
  obtain ⟨e, hge, hle, hlow, htop, hnear⟩ := exists_steps_div_twenty hpos hn
  have htwenty : (2 * 10 : ℕ) = 20 := rfl
  rw [htwenty, Nat.cast_ofNat]
  generalize (nearest (n / (20 : ℕ))).toRat * 10 = p at *
  have hstep : (0 : ℚ) < 2 ^ e := by positivity
  have hbounds : (2 : ℚ) ^ (e + 55) ≤ p ∧ p < 2 ^ (e + 57) := by
    obtain ⟨hhigh, hlow'⟩ := abs_sub_le_iff.1 hnear
    rw [two_zpow_add_ofNat] at hlow htop ⊢
    rw [two_zpow_add_ofNat]
    constructor <;> linarith
  -- The product has steps that are eight or sixteen times as large.
  obtain ⟨f, hef, hfe, hbelow, habove⟩ : ∃ f, e + 3 ≤ f ∧ f ≤ e + 4 ∧
      (2 : ℚ) ^ (f + 52) ≤ p ∧ p < 2 ^ (f + 53) := by
    rcases lt_or_ge p (2 ^ (e + 56)) with hlt | hge
    · exact ⟨e + 3, le_rfl, by omega, by rw [add_assoc]; exact hbounds.1, by rwa [add_assoc]⟩
    · exact ⟨e + 4, by omega, le_rfl, by rwa [add_assoc], by rw [add_assoc]; exact hbounds.2⟩
  have hhalf : (n : ℚ) / 2 = (n * 2 ^ (-1 - f).toNat : ℕ) * 2 ^ f := by
    rw [← scale_eq (by omega : f ≤ -1), zpow_neg_one, div_eq_mul_inv]
  have heven : Even (n * 2 ^ (-1 - f).toNat) :=
    (Nat.even_pow.2 ⟨even_two, by omega⟩).mul_left n
  have hsafe : p ≤ safeBound := by
    refine habove.le.trans (le_trans ?_ (two_pow_le_safeBound (k := 45) (by decide)))
    rw [← zpow_natCast]
    exact zpow_le_zpow_right₀ one_le_two (by omega)
  have hreach : 4 * (2 : ℚ) ^ e ≤ 2 ^ f / 2 := by
    have height : (2 : ℚ) ^ (e + 3) ≤ 2 ^ f := zpow_le_zpow_right₀ one_le_two hef
    rw [two_zpow_add_ofNat] at height
    linarith
  rw [hhalf] at hnear ⊢
  rw [abs_sub_comm] at hnear
  exact toRat_nearest_of_even hsafe (by omega) hbelow habove heven (hnear.trans hreach)

section scaled

variable {scale total count : ℕ} (hscale : scale ≤ 10) (htotal : total < 2 ^ 40)
  (hpos : 0 < count) (hscale_pos : 0 < scale) (hcount : count < 2 ^ 40)
include hscale htotal

theorem scaled_lt : scale * total < 2 ^ 44 := by
  have hprod : scale * total ≤ 10 * 2 ^ 40 := Nat.mul_le_mul hscale htotal.le
  omega

include hpos

theorem halfUp_scaled_le : halfUp (scale * total) count ≤ 2 ^ 44 :=
  (halfUp_le _ hpos).trans (scaled_lt hscale htotal)

include hscale_pos in
theorem halfUp_div_le_safeBound : (halfUp (scale * total) count / scale : ℚ) ≤ safeBound := by
  have hhalf : (halfUp (scale * total) count : ℚ) ≤ 2 ^ 44 := by
    exact_mod_cast halfUp_scaled_le hscale htotal hpos
  have hdiv : (halfUp (scale * total) count / scale : ℚ) ≤ halfUp (scale * total) count :=
    div_le_self (Nat.cast_nonneg _) (by exact_mod_cast hscale_pos)
  exact hdiv.trans (hhalf.trans (two_pow_le_safeBound (by decide)))

include hcount

theorem abs_nearest_mul_sub_le :
    |(nearest ((nearest (total / count)).toRat * scale)).toRat - (scale * total : ℕ) / count| ≤
      1 / 8 / count := by
  have hpos' : (0 : ℚ) < count := by exact_mod_cast hpos
  have hscale' : (scale : ℚ) ≤ 10 := by exact_mod_cast hscale
  have hnonneg : (0 : ℚ) ≤ total / count := by positivity
  have hmul := div_mul_le htotal hpos
  have hquot := abs_nearest_sub_le_of_mul_le hnonneg hpos hcount.le hmul (by decide)
  have hx := toRat_nearest_nonneg hnonneg (le_safeBound_of_mul_le hnonneg hpos hmul (by decide))
  generalize (nearest (total / count)).toRat = x at *
  have hxmul : x * count ≤ 2 ^ 40 + 1 := by
    calc x * count ≤ (total / count + 2 ^ 40 / 2 ^ 53 / count) * count := by
          gcongr
          linarith [(abs_sub_le_iff.1 hquot).1]
      _ = total / count * count + 2 ^ 40 / 2 ^ 53 := by
        rw [add_mul, div_mul_cancel₀ (2 ^ 40 / 2 ^ 53) hpos'.ne']
      _ ≤ 2 ^ 40 + 1 := by linarith
  have hprod : x * scale * count ≤ 2 ^ 44 := by
    calc x * scale * count = scale * (x * count) := by ring
      _ ≤ 10 * (2 ^ 40 + 1) := by gcongr
      _ ≤ 2 ^ 44 := by norm_num
  have hround := abs_nearest_sub_le_of_mul_le (mul_nonneg hx (Nat.cast_nonneg scale)) hpos
    (hcount.le.trans (by decide)) hprod (by decide)
  generalize (nearest (x * scale)).toRat = y at *
  calc |y - (scale * total : ℕ) / count| = |(y - x * scale) + scale * (x - total / count)| := by
        congr 1
        push_cast
        ring
    _ ≤ |y - x * scale| + scale * |x - total / count| := by
      refine (abs_add_le _ _).trans_eq ?_
      rw [abs_mul, Nat.abs_cast]
    _ ≤ 2 ^ 44 / 2 ^ 53 / count + 10 * (2 ^ 40 / 2 ^ 53 / count) := by gcongr
    _ = (2 ^ 44 / 2 ^ 53 + 10 * (2 ^ 40 / 2 ^ 53)) / count := by ring
    _ ≤ 1 / 8 / count := by
      gcongr
      norm_num

variable (hkeeps : KeepsHalves scale)
include hscale_pos hkeeps

theorem halfUp_sub_half_le : (halfUp (scale * total) count : ℚ) - 1 / 2 ≤
    (nearest ((nearest (total / count)).toRat * scale)).toRat := by
  have hpos' : (0 : ℚ) < count := by exact_mod_cast hpos
  have hscale' : (0 : ℚ) < scale := by exact_mod_cast hscale_pos
  have hround := (abs_sub_le_iff.1 (abs_nearest_mul_sub_le hscale htotal hpos hcount)).2
  have hle := halfUp_scaled_le hscale htotal hpos
  have hreach : halfUp (scale * total) count * (2 * count) ≤ 2 * (scale * total) + count :=
    Nat.div_mul_le_self _ _
  generalize halfUp (scale * total) count = k at *
  rcases hreach.eq_or_lt with hhalf | hlt
  · cases k with
    | zero => omega
    | succ k =>
      have hexact : (total / count : ℚ) = (2 * k + 1 : ℕ) / (2 * scale : ℕ) := by
        rw [div_eq_div_iff hpos'.ne' (by positivity)]
        have hcross : total * (2 * scale) = (2 * k + 1) * count := by linarith
        exact_mod_cast hcross
      have hk : 2 * k + 1 < 2 ^ 45 := by omega
      rw [hexact, hkeeps _ hk]
      push_cast
      linarith
  · have hstep : (k : ℚ) * (2 * count) + 1 ≤ 2 * (scale * total : ℕ) + count := by
      exact_mod_cast hlt
    have hgap : (k : ℚ) - 1 / 2 + 1 / 2 / count ≤ (scale * total : ℕ) / count := by
      rw [le_div_iff₀ hpos', add_mul, div_mul_cancel₀ _ hpos'.ne']
      linarith
    have hslack : (1 : ℚ) / 8 / count ≤ 1 / 2 / count := by
      gcongr
      norm_num
    linarith

/-- Multiplied, a half added, and the fraction dropped, with a rounding at each step: the exact
product, a half going up. -/
theorem floor_nearest_mul_add_half :
    ⌊(nearest ((nearest ((nearest (total / count)).toRat * scale)).toRat + 1 / 2)).toRat⌋ =
      halfUp (scale * total) count := by
  have hround := (abs_sub_le_iff.1 (abs_nearest_mul_sub_le hscale htotal hpos hcount)).1
  exact floor_nearest_add_half ((scaled_lt hscale htotal).trans (by decide))
    (hcount.trans (by decide)) hpos (by linarith)
    (halfUp_sub_half_le hscale htotal hpos hscale_pos hcount hkeeps)

end scaled

end Binary64

end PatchReview
