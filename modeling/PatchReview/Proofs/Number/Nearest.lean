import PatchReview.Proofs.Number.HalfUp

set_option autoImplicit false

namespace PatchReview

theorem two_zpow_add_ofNat (e : ℤ) (k : ℕ) [k.AtLeastTwo] :
    (2 : ℚ) ^ (e + ofNat(k)) = 2 ^ ofNat(k) * 2 ^ e := by
  rw [zpow_add₀ two_ne_zero, mul_comm]
  rfl

theorem abs_roundHalfEven_sub_le_abs (num : ℕ) {den : ℕ} (hden : 0 < den) (n : ℤ) :
    |(roundHalfEven num den : ℚ) * den - num| ≤ |(n : ℚ) * den - num| := by
  have hround := abs_roundHalfEven_sub_le num hden
  by_cases heq : n = roundHalfEven num den
  · rw [heq, Int.cast_natCast]
  have hden' : (0 : ℚ) < den := by exact_mod_cast hden
  have hapart : (1 : ℚ) ≤ |(n : ℚ) - roundHalfEven num den| := by
    exact_mod_cast Int.one_le_abs (sub_ne_zero.2 heq)
  have hfar : (den : ℚ) ≤ |((n : ℚ) * den - num) - (roundHalfEven num den * den - num)| := by
    rw [sub_sub_sub_cancel_right, ← sub_mul, abs_mul, abs_of_pos hden']
    exact le_mul_of_one_le_left hden'.le hapart
  have htriangle := abs_sub ((n : ℚ) * den - num) (roundHalfEven num den * den - num)
  linarith

theorem roundHalfEven_of_even {num den n : ℕ} (hden : 0 < den) (hn : Even n)
    (h : |(n : ℚ) * den - num| ≤ den / 2) : roundHalfEven num den = n := by
  obtain ⟨hhigh, hlow⟩ := abs_sub_le_iff.1 h
  have hhigh' : 2 * (n * den) ≤ 2 * num + den := by
    have hcast : 2 * ((n : ℚ) * den) ≤ 2 * num + den := by linarith
    exact_mod_cast hcast
  have hlow' : 2 * num ≤ 2 * (n * den) + den := by
    have hcast : 2 * (num : ℚ) ≤ 2 * (n * den) + den := by linarith
    exact_mod_cast hcast
  have hsplit := Nat.div_add_mod' num den
  have hmod := Nat.mod_lt num hden
  have hparity := Nat.even_iff.1 hn
  simp only [roundHalfEven]
  generalize num / den = low at *
  -- The even number is the quotient, or the next number above it.
  rcases lt_trichotomy n low with hlt | rfl | hgt
  · have hmul := Nat.mul_le_mul_right den hlt
    rw [Nat.succ_mul] at hmul
    omega
  · split_ifs <;> omega
  · obtain ⟨k, rfl⟩ := Nat.exists_eq_add_of_lt hgt
    rw [Nat.add_mul, Nat.add_mul, Nat.one_mul] at hhigh' hlow'
    have hk : k = 0 := by
      by_contra hk
      have hmul := Nat.le_mul_of_pos_left den (Nat.pos_of_ne_zero hk)
      omega
    subst hk
    split_ifs <;> omega

theorem abs_steps_sub_le_abs (num : ℕ) {den : ℕ} (hden : 0 < den) (e n : ℤ) :
    |(roundHalfEven (num * 2 ^ (-e).toNat) (den * 2 ^ e.toNat) : ℚ) * 2 ^ e - num / den| ≤
      |(n : ℚ) * 2 ^ e - num / den| := by
  have hden' : (0 : ℚ) < den := by exact_mod_cast hden
  have hscale : (0 : ℚ) < den * ((2 ^ (-e).toNat : ℕ) : ℚ) := by positivity
  refine le_of_mul_le_mul_right ?_ hscale
  rw [abs_steps_mul _ num hden e, abs_steps_mul _ num hden e]
  exact abs_roundHalfEven_sub_le_abs _ (by positivity) n

namespace Binary64

/-- No number is nearer to the value. -/
def IsNearest (x : Binary64) (q : ℚ) : Prop := ∀ y : Binary64, |x.toRat - q| ≤ |y.toRat - q|

/-- A number is a whole number of steps of a power of two, or below `2 ^ 52` of them. -/
theorem exists_steps_or_lt (y : Binary64) (e : ℤ) :
    (∃ n : ℤ, y.toRat = n * 2 ^ e) ∨ y.exponent < e ∧ y.toRat < 2 ^ (e + 52) := by
  rcases le_or_gt e y.exponent with hle | hlt
  · left
    rw [toRat_eq, scale_eq hle]
    split_ifs
    · exact ⟨-(y.significand * 2 ^ (y.exponent - e).toNat : ℕ), by push_cast; ring⟩
    · exact ⟨(y.significand * 2 ^ (y.exponent - e).toNat : ℕ), by push_cast; ring⟩
  · refine .inr ⟨hlt, (le_abs_self y.toRat).trans_lt ?_⟩
    rw [abs_toRat]
    exact scale_lt y.significand_lt hlt

theorem isNearest_nearest {q : ℚ} (hq : 0 ≤ q) (h : q ≤ safeBound) : (nearest q).IsNearest q := by
  intro y
  obtain ⟨num, den, hden, rfl⟩ := exists_fraction hq
  rcases Nat.eq_zero_or_pos num with rfl | hnum
  · rw [Nat.cast_zero, zero_div, toRat_nearest_zero, sub_zero, abs_zero]
    exact abs_nonneg _
  obtain ⟨e, hvalue, hstep, -⟩ := exists_steps_nearest hnum hden h
  have hsteps := abs_steps_sub_le_abs num hden e
  rw [← hvalue] at hsteps
  rcases exists_steps_or_lt y e with ⟨n, hn⟩ | ⟨hexp, hlt⟩
  · rw [hn]
    exact hsteps n
  -- Below the least value with steps as large, that value is nearer.
  · have hden' : (0 : ℚ) < den := by exact_mod_cast hden
    have hleast : (2 : ℚ) ^ (e + 52) ≤ num / den :=
      (le_div_iff₀' hden').2 (hstep.resolve_left (by have hge := y.exponent_ge; omega))
    have hpow : ((2 ^ 52 : ℤ) : ℚ) * 2 ^ e = 2 ^ (e + 52) := by
      rw [two_zpow_add_ofNat, Int.cast_pow, Int.cast_ofNat]
    calc |(nearest (num / den)).toRat - num / den|
        ≤ |((2 ^ 52 : ℤ) : ℚ) * 2 ^ e - num / den| := hsteps _
      _ = num / den - 2 ^ (e + 52) := by
        rw [hpow, abs_sub_comm, abs_of_nonneg (sub_nonneg.2 hleast)]
      _ ≤ num / den - y.toRat := by linarith
      _ ≤ |y.toRat - num / den| := by
        rw [abs_sub_comm]
        exact le_abs_self _

/-- Between two neighbours half a step is enough to reach the even one. -/
theorem toRat_nearest_of_even {q : ℚ} {n : ℕ} {e : ℤ} (h : q ≤ safeBound) (he : -1074 ≤ e)
    (hlow : 2 ^ (e + 52) ≤ q) (hhigh : q < 2 ^ (e + 53)) (hn : Even n)
    (hnear : |n * 2 ^ e - q| ≤ 2 ^ e / 2) : (nearest q).toRat = n * 2 ^ e := by
  have hpos : 0 < q := lt_of_lt_of_le (by positivity) hlow
  obtain ⟨num, den, hden, rfl⟩ := exists_fraction hpos.le
  have hden' : (0 : ℚ) < den := by exact_mod_cast hden
  have hnum : 0 < num := by
    have hnum' := (div_pos_iff_of_pos_right hden').1 hpos
    exact_mod_cast hnum'
  obtain ⟨f, hvalue, hstep, htop⟩ := exists_steps_nearest hnum hden h
  -- The bounds on the value leave only one size of its steps.
  have hef : e ≤ f := by
    have hexp := (zpow_lt_zpow_iff_right₀ one_lt_two).1
      (hlow.trans_lt ((div_lt_iff₀' hden').2 htop))
    omega
  have hfe : f ≤ e := by
    rcases hstep with rfl | hstep
    · exact he
    · have hexp := (zpow_lt_zpow_iff_right₀ one_lt_two).1
        (((le_div_iff₀' hden').2 hstep).trans_lt hhigh)
      omega
  obtain rfl := le_antisymm hef hfe
  have hscale : (0 : ℚ) < den * ((2 ^ (-e).toNat : ℕ) : ℚ) := by positivity
  rw [hvalue, roundHalfEven_of_even (by positivity) hn]
  rw [← abs_steps_mul _ num hden e, cast_mul_two_pow]
  refine (mul_le_mul_of_nonneg_right hnear hscale.le).trans_eq ?_
  ring

end Binary64

end PatchReview
