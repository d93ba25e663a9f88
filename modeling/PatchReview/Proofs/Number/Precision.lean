import PatchReview.Proofs.Number.Rounding

/-!
How far rounding moves a value: by half a step, which is a part in `2 ^ 53` of the value unless it
is next to zero. Main statements: `Binary64.abs_nearest_sub_le`, `Binary64.toPlaces_eq` and
`Binary64.nearest_hundredths_lt_iff`.
-/

set_option autoImplicit false

namespace PatchReview

theorem abs_roundHalfEven_sub_le (num : ℕ) {den : ℕ} (hden : 0 < den) :
    |(roundHalfEven num den : ℚ) * den - num| ≤ den / 2 := by
  have hsplit := Nat.div_add_mod' num den
  have hmod : num % den < den := Nat.mod_lt num hden
  have hbounds : 2 * (roundHalfEven num den * den) ≤ 2 * num + den ∧
      2 * num ≤ 2 * (roundHalfEven num den * den) + den := by
    rcases roundHalfEven_cases num den with ⟨h, hhalf⟩ | ⟨h, hhalf⟩
    · rw [h]
      omega
    · rw [h, Nat.add_mul]
      omega
  obtain ⟨hlow, hhigh⟩ : 2 * ((roundHalfEven num den : ℚ) * den) ≤ 2 * num + den ∧
      2 * (num : ℚ) ≤ 2 * (roundHalfEven num den * den) + den := by exact_mod_cast hbounds
  exact abs_sub_le_iff.2 ⟨by linarith, by linarith⟩

theorem roundHalfEven_eq {num den n : ℕ} (hden : 0 < den)
    (h : |(num : ℚ) - n * den| < den / 2) : roundHalfEven num den = n := by
  have hden' : (0 : ℚ) < den := by exact_mod_cast hden
  have hround := abs_roundHalfEven_sub_le num hden
  have hclose : |(roundHalfEven num den : ℚ) - n| * den < 1 * den := by
    calc |(roundHalfEven num den : ℚ) - n| * den
        = |((roundHalfEven num den : ℚ) * den - num) + (num - n * den)| := by
          rw [sub_add_sub_cancel, ← sub_mul, abs_mul, abs_of_pos hden']
      _ ≤ |(roundHalfEven num den : ℚ) * den - num| + |(num : ℚ) - n * den| := abs_add_le _ _
      _ < 1 * den := by linarith
  have hint : |((roundHalfEven num den : ℤ) - n : ℤ)| < 1 := by
    exact_mod_cast lt_of_mul_lt_mul_right hclose hden'.le
  have hzero := Int.abs_lt_one_iff.1 hint
  omega

theorem abs_steps_mul (m : ℚ) (num : ℕ) {den : ℕ} (hden : 0 < den) (e : ℤ) :
    |m * 2 ^ e - num / den| * (den * ((2 ^ (-e).toNat : ℕ) : ℚ)) =
      |m * ((den * 2 ^ e.toNat : ℕ) : ℚ) - ((num * 2 ^ (-e).toNat : ℕ) : ℚ)| := by
  have hden' : (0 : ℚ) < den := by exact_mod_cast hden
  have hscale : (0 : ℚ) < den * ((2 ^ (-e).toNat : ℕ) : ℚ) := by positivity
  rw [cast_mul_two_pow, Nat.cast_mul num, ← abs_of_pos hscale, ← abs_mul]
  congr 1
  field_simp

theorem abs_steps_sub_le (num : ℕ) {den : ℕ} (hden : 0 < den) (e : ℤ) :
    |(roundHalfEven (num * 2 ^ (-e).toNat) (den * 2 ^ e.toNat) : ℚ) * 2 ^ e - num / den| ≤
      2 ^ e / 2 := by
  have hpos : 0 < den * 2 ^ e.toNat := by positivity
  have hden' : (0 : ℚ) < den := by exact_mod_cast hden
  have hscale : (0 : ℚ) < den * ((2 ^ (-e).toNat : ℕ) : ℚ) := by positivity
  refine le_of_mul_le_mul_right ?_ hscale
  rw [abs_steps_mul _ num hden e]
  refine (abs_roundHalfEven_sub_le (num * 2 ^ (-e).toNat) hpos).trans_eq ?_
  rw [cast_mul_two_pow]
  ring

theorem half_two_zpow_neg (n : ℕ) : (2 : ℚ) ^ (-(n : ℤ)) / 2 = 1 / 2 ^ (n + 1) := by
  rw [zpow_neg, zpow_natCast, pow_succ, one_div, mul_inv, div_eq_mul_inv]

namespace Binary64

theorem toRat_of_not_negative {x : Binary64} (h : x.negative = false) : x.toRat = |x.toRat| :=
  (abs_of_nonneg (toRat_nonneg h)).symm

theorem nearest?_div (n : ℕ) {d : ℕ} (hd : 0 < d) :
    nearest? ((n : ℚ) / d) = ofFraction? false n d := by
  have hnonneg : (0 : ℚ) ≤ n / d := by positivity
  have hsign : decide ((n : ℚ) / d < 0) = false := decide_eq_false (not_lt.2 hnonneg)
  rw [nearest?, hsign]
  refine ofFraction?_congr ((n : ℚ) / d).den_pos hd ?_ false
  have hvalue : (((n : ℚ) / d).num.natAbs : ℚ) / ((n : ℚ) / d).den = n / d := by
    have hnum : 0 ≤ ((n : ℚ) / d).num := Rat.num_nonneg.2 hnonneg
    rw [Nat.cast_natAbs, abs_of_nonneg hnum, Rat.num_div_den]
  have hden : (((n : ℚ) / d).den : ℚ) ≠ 0 := by exact_mod_cast ((n : ℚ) / d).den_ne_zero
  have hd' : (d : ℚ) ≠ 0 := by exact_mod_cast hd.ne'
  exact_mod_cast (div_eq_div_iff hden hd').1 hvalue

theorem negative_nearest {q : ℚ} (hq : 0 ≤ q) (h : q ≤ safeBound) :
    (nearest q).negative = false := by
  obtain ⟨x, hx, hsign, -⟩ := exists_nearest? ((abs_of_nonneg hq).trans_le h)
  rw [nearest_eq_of_nearest? hx, hsign, decide_eq_false (not_lt.2 hq)]

theorem toRat_nearest_nonneg {q : ℚ} (hq : 0 ≤ q) (h : q ≤ safeBound) :
    0 ≤ (nearest q).toRat :=
  toRat_nonneg (negative_nearest hq h)

theorem toRat_nearest_zero : (nearest 0).toRat = 0 := by
  have hzero : nearest? ((0 : ℕ) / (1 : ℕ) : ℚ) = some (zero false) := nearest?_div 0 one_pos
  rw [Nat.cast_zero, zero_div] at hzero
  rw [nearest_eq_of_nearest? hzero]
  simp [toRat_eq, zero]

theorem exists_fraction {q : ℚ} (hq : 0 ≤ q) : ∃ num den : ℕ, 0 < den ∧ q = num / den := by
  refine ⟨q.num.natAbs, q.den, q.den_pos, ?_⟩
  rw [Nat.cast_natAbs, abs_of_nonneg (Rat.num_nonneg.2 hq), Rat.num_div_den]

theorem exists_steps_nearest {num den : ℕ} (hnum : 0 < num) (hden : 0 < den)
    (h : (num / den : ℚ) ≤ safeBound) :
    ∃ e : ℤ, (nearest (num / den)).toRat =
        roundHalfEven (num * 2 ^ (-e).toNat) (den * 2 ^ e.toNat) * 2 ^ e ∧
      (e = -1074 ∨ den * (2 : ℚ) ^ (e + 52) ≤ num) ∧ (num : ℚ) < den * 2 ^ (e + 53) := by
  have hden' : (0 : ℚ) < den := by exact_mod_cast hden
  obtain ⟨x, e, hx, hsign, hvalue, hstep⟩ :=
    exists_steps false hnum hden ((div_le_iff₀' hden').1 h)
  refine ⟨e, ?_, hstep⟩
  rw [nearest_eq_of_nearest? ((nearest?_div num hden).trans hx), toRat_of_not_negative hsign,
    hvalue]

theorem abs_nearest_sub_le {q : ℚ} (hq : 0 ≤ q) (h : q ≤ safeBound) :
    |(nearest q).toRat - q| ≤ max (q / 2 ^ 53) (1 / 2 ^ 1075) := by
  obtain ⟨num, den, hden, rfl⟩ := exists_fraction hq
  rcases Nat.eq_zero_or_pos num with rfl | hnum
  · rw [Nat.cast_zero, zero_div, toRat_nearest_zero, sub_zero, abs_zero]
    positivity
  have hden' : (0 : ℚ) < den := by exact_mod_cast hden
  obtain ⟨e, hvalue, hstep, -⟩ := exists_steps_nearest hnum hden h
  rw [hvalue]
  refine (abs_steps_sub_le num hden e).trans ?_
  rcases hstep with rfl | hstep
  · exact le_max_of_le_right (half_two_zpow_neg 1074).le
  · refine le_max_of_le_left ?_
    rw [div_div, le_div_iff₀ (by positivity)]
    calc (2 : ℚ) ^ e / 2 * (den * 2 ^ 53) = den * (2 ^ e * 2 ^ (52 : ℤ)) := by norm_num; ring
      _ ≤ num := by rwa [← zpow_add₀ two_ne_zero]

theorem two_pow_le_safeBound {k : ℕ} (h : k ≤ 1022) : (2 : ℚ) ^ k ≤ safeBound := by
  rw [safeBound]
  exact pow_le_pow_right₀ one_le_two h

theorem two_le_safeBound : 2 ≤ safeBound := by
  rw [← pow_one (2 : ℚ)]
  exact two_pow_le_safeBound (by decide)

/-- Up to two the nearest number is off by less than any digit of a report. -/
theorem abs_nearest_sub_le_of_le_two {q : ℚ} (hq : 0 ≤ q) (h : q ≤ 2) :
    |(nearest q).toRat - q| ≤ 1 / 2 ^ 52 := by
  refine (abs_nearest_sub_le hq (h.trans two_le_safeBound)).trans (max_le ?_ ?_)
  · linarith
  · exact one_div_le_one_div_of_le (by positivity) (pow_le_pow_right₀ one_le_two (by decide))

theorem nearest_lt_nearest {p q : ℚ} (hp : 0 ≤ p) (hq : q ≤ 2) (h : p + 1 / 2 ^ 50 ≤ q) :
    (nearest p).toRat < (nearest q).toRat := by
  have hlow := (abs_sub_le_iff.1 (abs_nearest_sub_le_of_le_two hp (by linarith))).1
  have hhigh := (abs_sub_le_iff.1 (abs_nearest_sub_le_of_le_two (by linarith) hq)).2
  linarith

theorem nearest_hundredths_lt_iff {m n : ℕ} (hm : m ≤ 200) (hn : n ≤ 200) :
    (nearest (m / 100)).toRat < (nearest (n / 100)).toRat ↔ m < n := by
  have hlt {i j : ℕ} (hj : j ≤ 200) (h : i < j) :
      (nearest (i / 100)).toRat < (nearest (j / 100)).toRat := by
    have hj' : (j : ℚ) ≤ 200 := by exact_mod_cast hj
    have hstep : (i : ℚ) + 1 ≤ j := by exact_mod_cast h
    exact nearest_lt_nearest (by positivity) (by linarith) (by linarith)
  refine ⟨fun h => ?_, hlt hn⟩
  by_contra hge
  rcases (not_lt.1 hge).eq_or_lt with rfl | hgt
  · exact lt_irrefl _ h
  · exact lt_asymm h (hlt hm hgt)

/-- A number that is next to a decimal is rounded to it. -/
theorem toPlaces_eq {x : Binary64} {places n : ℕ} (hx : x.negative = false)
    (h : |x.toRat * 10 ^ places - n| < 1 / 2) (hn : (n : ℚ) / 10 ^ places ≤ safeBound) :
    x.toPlaces places = nearest (n / 10 ^ places) := by
  have hvalue : (x.num : ℚ) = x.toRat * x.den := by
    rw [toRat_of_not_negative hx, abs_toRat, num_eq]
  have hden : (0 : ℚ) < x.den := by exact_mod_cast x.den_pos
  have hdigits : roundHalfEven (x.num * 10 ^ places) x.den = n := by
    refine roundHalfEven_eq x.den_pos ?_
    push_cast
    calc |(x.num : ℚ) * 10 ^ places - n * x.den| = |x.toRat * 10 ^ places - n| * x.den := by
          rw [hvalue, mul_right_comm, ← sub_mul, abs_mul, abs_of_pos hden]
      _ < 1 / 2 * x.den := by gcongr
      _ = x.den / 2 := by ring
  have hten : 0 < 10 ^ places := by positivity
  have hnearest := nearest?_div n hten
  have hpos : (0 : ℚ) ≤ n / 10 ^ places := by positivity
  obtain ⟨hsome, -⟩ := exists_nearest?_of_le hpos hn le_rfl
  rw [Nat.cast_pow, Nat.cast_ofNat, hsome] at hnearest
  simp only [toPlaces, hdigits, hx, ← hnearest, Option.getD_some]

end Binary64

end PatchReview
