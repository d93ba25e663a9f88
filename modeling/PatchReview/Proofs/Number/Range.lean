import Mathlib
import PatchReview.Number.Binary64

set_option autoImplicit false

namespace PatchReview

theorem cast_mul_two_pow (den : ℕ) (e : ℤ) :
    ((den * 2 ^ e.toNat : ℕ) : ℚ) = den * 2 ^ e * ((2 ^ (-e).toNat : ℕ) : ℚ) := by
  have hsplit : (2 : ℚ) ^ e.toNat = 2 ^ e * 2 ^ (-e).toNat := by
    rw [← zpow_natCast, ← zpow_natCast, ← zpow_add₀ two_ne_zero]
    congr 1
    omega
  push_cast
  rw [hsplit, mul_assoc]

theorem scaled_le_iff {num den bound : ℕ} (e : ℤ) :
    num * 2 ^ (-e).toNat ≤ bound * (den * 2 ^ e.toNat) ↔
      (num : ℚ) ≤ bound * (den * 2 ^ e) := by
  have hpos : (0 : ℚ) < ((2 ^ (-e).toNat : ℕ) : ℚ) := by positivity
  rw [← @Nat.cast_le ℚ, Nat.cast_mul, Nat.cast_mul bound, cast_mul_two_pow, ← mul_assoc,
    mul_le_mul_iff_of_pos_right hpos]

theorem le_scaled_iff {num den bound : ℕ} (e : ℤ) :
    bound * (den * 2 ^ e.toNat) ≤ num * 2 ^ (-e).toNat ↔
      bound * (den * (2 : ℚ) ^ e) ≤ num := by
  have hpos : (0 : ℚ) < ((2 ^ (-e).toNat : ℕ) : ℚ) := by positivity
  rw [← @Nat.cast_le ℚ, Nat.cast_mul, Nat.cast_mul num, cast_mul_two_pow, ← mul_assoc,
    mul_le_mul_iff_of_pos_right hpos]

theorem roundHalfEven_cases (num den : ℕ) :
    roundHalfEven num den = num / den ∧ 2 * (num % den) ≤ den ∨
      roundHalfEven num den = num / den + 1 ∧ den ≤ 2 * (num % den) := by
  simp only [roundHalfEven]
  split_ifs <;> omega

theorem roundHalfEven_mul_le (num den : ℕ) : roundHalfEven num den * den ≤ 2 * num := by
  have hsplit := Nat.div_add_mod' num den
  rcases roundHalfEven_cases num den with ⟨h, -⟩ | ⟨h, hhalf⟩
  · rw [h]
    omega
  · rw [h, Nat.add_mul]
    omega

theorem roundHalfEven_le {num den bound : ℕ} (hden : 0 < den) (h : num ≤ bound * den) :
    roundHalfEven num den ≤ bound := by
  have hlow : num / den ≤ bound := Nat.div_le_of_le_mul (by rwa [Nat.mul_comm])
  have hsplit := Nat.div_add_mod' num den
  rcases roundHalfEven_cases num den with ⟨hround, -⟩ | ⟨hround, hhalf⟩
  · omega
  · have hne : num / den ≠ bound := by
      intro heq
      rw [heq] at hsplit
      omega
    omega

theorem le_roundHalfEven {num den bound : ℕ} (hden : 0 < den) (h : bound * den ≤ num) :
    bound ≤ roundHalfEven num den := by
  have hlow : bound ≤ num / den := (Nat.le_div_iff_mul_le hden).2 h
  rcases roundHalfEven_cases num den with ⟨hround, -⟩ | ⟨hround, -⟩ <;> omega

theorem cast_log2_bounds {n : ℕ} (h : 0 < n) :
    (2 : ℚ) ^ (n.log2 : ℤ) ≤ n ∧ (n : ℚ) < 2 ^ ((n.log2 : ℤ) + 1) := by
  have hle : 2 ^ n.log2 ≤ n := Nat.log2_self_le h.ne'
  have hlt : n < 2 ^ (n.log2 + 1) := Nat.lt_log2_self
  exact ⟨by exact_mod_cast hle, by exact_mod_cast hlt⟩

theorem floorLog2_spec {num den : ℕ} (hnum : 0 < num) (hden : 0 < den) :
    den * (2 : ℚ) ^ floorLog2 num den ≤ num ∧ (num : ℚ) < den * 2 ^ (floorLog2 num den + 1) := by
  obtain ⟨hn, hn'⟩ := cast_log2_bounds hnum
  obtain ⟨hd, hd'⟩ := cast_log2_bounds hden
  have htwo (x y : ℤ) : (2 : ℚ) ^ x * 2 ^ y = 2 ^ (x + y) := (zpow_add₀ two_ne_zero x y).symm
  -- The difference of the lengths is the logarithm, or one more than it.
  have hlow : den * (2 : ℚ) ^ ((num.log2 : ℤ) - den.log2 - 1) < num := by
    calc den * (2 : ℚ) ^ ((num.log2 : ℤ) - den.log2 - 1)
        < 2 ^ ((den.log2 : ℤ) + 1) * 2 ^ ((num.log2 : ℤ) - den.log2 - 1) := by gcongr
      _ = 2 ^ (num.log2 : ℤ) := by rw [htwo]; congr 1; omega
      _ ≤ num := hn
  have hhigh : (num : ℚ) < den * 2 ^ ((num.log2 : ℤ) - den.log2 + 1) := by
    calc (num : ℚ) < 2 ^ ((num.log2 : ℤ) + 1) := hn'
      _ = 2 ^ (den.log2 : ℤ) * 2 ^ ((num.log2 : ℤ) - den.log2 + 1) := by rw [htwo]; congr 1; omega
      _ ≤ den * 2 ^ ((num.log2 : ℤ) - den.log2 + 1) := by gcongr
  have hcut := @le_scaled_iff num den 1 ((num.log2 : ℤ) - den.log2)
  simp only [one_mul, Nat.cast_one] at hcut
  simp only [floorLog2]
  split_ifs with h
  · exact ⟨hcut.1 h, hhigh⟩
  · rw [hcut, not_le] at h
    exact ⟨hlow.le, by simpa using h⟩

namespace Binary64

theorem ofParts?_eq_some {negative : Bool} {significand : ℕ} {exponent : ℤ}
    (hlt : significand < 2 ^ 53) (hge : -1074 ≤ exponent) (hle : exponent ≤ 971)
    (hnormal : 2 ^ 52 ≤ significand ∨ exponent = -1074) :
    ofParts? negative significand exponent =
      some ⟨negative, significand, exponent, hlt, hge, hle, hnormal⟩ := by
  rw [ofParts?, dif_pos hlt, dif_pos hge, dif_pos hle, dif_pos hnormal]

theorem toRat_eq (x : Binary64) :
    x.toRat = (if x.negative then -1 else 1) * (x.significand * 2 ^ x.exponent) := by
  have hden : (x.den : ℚ) ≠ 0 := by
    rw [den]
    positivity
  have hnum : (x.num : ℚ) = x.significand * 2 ^ x.exponent * (x.den : ℚ) :=
    cast_mul_two_pow x.significand x.exponent
  have hquot : (x.num : ℚ) / x.den = x.significand * 2 ^ x.exponent := by
    rw [hnum, mul_div_cancel_right₀ _ hden]
  rw [toRat, Rat.mkRat_eq_div, ← hquot]
  split_ifs <;> push_cast <;> ring

theorem abs_toRat (x : Binary64) : |x.toRat| = x.significand * 2 ^ x.exponent := by
  have hpos : (0 : ℚ) ≤ x.significand * 2 ^ x.exponent := by positivity
  rw [toRat_eq, abs_mul, abs_of_nonneg hpos]
  split_ifs <;> simp

theorem toRat_nonneg {x : Binary64} (h : x.negative = false) : 0 ≤ x.toRat := by
  rw [toRat_eq, h]
  simp only [Bool.false_eq_true, if_false, one_mul]
  positivity

/-- Every value up to here has a nearest number. -/
@[irreducible] def safeBound : ℚ := 2 ^ 1022

/-- What a fraction is rounded to: whole steps of a power of two, which is the least one or has at
least `2 ^ 52` steps in the fraction, and always fewer than `2 ^ 53`. -/
theorem exists_steps (negative : Bool) {num den : ℕ} (hnum : 0 < num) (hden : 0 < den)
    (h : (num : ℚ) ≤ den * safeBound) :
    ∃ x e, ofFraction? negative num den = some x ∧ x.negative = negative ∧
      |x.toRat| = roundHalfEven (num * 2 ^ (-e).toNat) (den * 2 ^ e.toNat) * 2 ^ e ∧
      (e = -1074 ∨ den * (2 : ℚ) ^ (e + 52) ≤ num) ∧ (num : ℚ) < den * 2 ^ (e + 53) := by
  obtain ⟨hlow, hhigh⟩ := floorLog2_spec hnum hden
  simp only [ofFraction?, if_neg hnum.ne']
  generalize floorLog2 num den = k at *
  have hden' : (0 : ℚ) < den := by exact_mod_cast hden
  rw [safeBound] at h
  have hk : k ≤ 1022 := by
    have hpow : (2 : ℚ) ^ k ≤ 2 ^ (1022 : ℤ) := le_of_mul_le_mul_left (hlow.trans h) hden'
    exact (zpow_le_zpow_iff_right₀ one_lt_two).1 hpow
  obtain ⟨e, he, hge, hle, hcase⟩ : ∃ e, max (-1074) (k - 52) = e ∧ -1074 ≤ e ∧ e ≤ 970 ∧
      (k = e + 52 ∨ e = -1074 ∧ k ≤ e + 52) := ⟨_, rfl, by omega⟩
  rw [he]
  have hD : 0 < den * 2 ^ e.toNat := by positivity
  have htop : (num : ℚ) < den * 2 ^ (e + 53) :=
    hhigh.trans_le
      (mul_le_mul_of_nonneg_left (zpow_le_zpow_right₀ one_le_two (by omega)) hden'.le)
  obtain ⟨m, hm⟩ : ∃ m, roundHalfEven (num * 2 ^ (-e).toNat) (den * 2 ^ e.toNat) = m := ⟨_, rfl⟩
  have hm_le : m ≤ 2 ^ 53 := by
    rw [← hm]
    refine roundHalfEven_le hD ((scaled_le_iff e).2 ?_)
    calc (num : ℚ) ≤ den * 2 ^ (e + 53) := htop.le
      _ = (2 ^ 53 : ℕ) * (den * 2 ^ e) := by
        rw [zpow_add₀ two_ne_zero]
        push_cast
        ring
  have hm_ge : 2 ^ 52 ≤ m ∨ e = -1074 := by
    refine hcase.imp (fun hek => ?_) And.left
    rw [← hm]
    refine le_roundHalfEven hD ((le_scaled_iff e).2 ?_)
    calc ((2 ^ 52 : ℕ) : ℚ) * (den * 2 ^ e) = den * 2 ^ (e + 52) := by
          rw [zpow_add₀ two_ne_zero]
          push_cast
          ring
      _ ≤ num := by rwa [← hek]
  have hscale : (e = -1074 ∨ den * (2 : ℚ) ^ (e + 52) ≤ num) ∧ (num : ℚ) < den * 2 ^ (e + 53) :=
    ⟨hcase.symm.imp And.left fun hek => by rwa [← hek], htop⟩
  rw [hm]
  split_ifs with hcarry
  · refine ⟨_, e, ofParts?_eq_some (by norm_num) (by omega) (by omega) (.inl le_rfl), rfl, ?_,
      hscale⟩
    rw [abs_toRat, hm, hcarry, zpow_add₀ two_ne_zero]
    push_cast
    ring
  · refine ⟨_, e, ofParts?_eq_some (by omega) hge (by omega) hm_ge, rfl, ?_, hscale⟩
    rw [abs_toRat, hm]

theorem exists_ofFraction? (negative : Bool) {num den : ℕ} (hden : 0 < den)
    (h : (num : ℚ) ≤ den * safeBound) :
    ∃ x, ofFraction? negative num den = some x ∧ x.negative = negative ∧
      den * |x.toRat| ≤ 2 * num := by
  rcases Nat.eq_zero_or_pos num with rfl | hnum
  · exact ⟨zero negative, rfl, rfl, by simp [abs_toRat, zero]⟩
  obtain ⟨x, e, hx, hsign, hvalue, -⟩ := exists_steps negative hnum hden h
  have hround := roundHalfEven_mul_le (num * 2 ^ (-e).toNat) (den * 2 ^ e.toNat)
  rw [← mul_assoc 2, le_scaled_iff] at hround
  refine ⟨x, hx, hsign, ?_⟩
  rw [hvalue, mul_left_comm]
  exact_mod_cast hround

theorem exists_nearest? {q : ℚ} (h : |q| ≤ safeBound) :
    ∃ x, nearest? q = some x ∧ x.negative = decide (q < 0) ∧ |x.toRat| ≤ 2 * |q| := by
  have hden : (0 : ℚ) < q.den := by exact_mod_cast q.den_pos
  have habs : q.den * |q| = q.num.natAbs := by
    rw [Nat.cast_natAbs, Int.cast_abs, ← Rat.den_mul_eq_num, abs_mul, Nat.abs_cast]
  have hnum : (q.num.natAbs : ℚ) ≤ q.den * safeBound := by
    rw [← habs]
    gcongr
  obtain ⟨x, hx, hsign, hvalue⟩ := exists_ofFraction? (q < 0) q.den_pos hnum
  refine ⟨x, hx, hsign, ?_⟩
  rw [← habs, mul_left_comm] at hvalue
  exact le_of_mul_le_mul_left hvalue hden

theorem nearest_eq_of_nearest? {q : ℚ} {x : Binary64} (h : nearest? q = some x) :
    nearest q = x := by
  rw [nearest, h, Option.getD_some]

/-- Quotients of counts below this are in range. -/
@[irreducible] def countBound : ℚ := 2 ^ 1000

theorem mul_countBound_le : 1024 * (countBound + 1) ≤ safeBound := by
  have hpow (k : ℕ) : 1024 * ((2 : ℚ) ^ k + 1) ≤ 2 ^ (k + 11) := by
    have hone : (1 : ℚ) ≤ 2 ^ k := one_le_pow₀ one_le_two
    rw [pow_add]
    linarith
  rw [countBound, safeBound]
  exact (hpow 1000).trans (pow_le_pow_right₀ one_le_two (by decide))

theorem exists_nearest?_of_le {q bound : ℚ} (hq : 0 ≤ q) (h : q ≤ bound)
    (hbound : bound ≤ safeBound) :
    nearest? q = some (nearest q) ∧ 0 ≤ (nearest q).toRat ∧ (nearest q).toRat ≤ 2 * bound := by
  have habs : |q| = q := abs_of_nonneg hq
  have hsafe : |q| ≤ safeBound := habs.trans_le (h.trans hbound)
  obtain ⟨x, hx, hsign, hvalue⟩ := exists_nearest? hsafe
  have hnonneg : 0 ≤ x.toRat := toRat_nonneg (by simpa [hsign] using hq)
  rw [abs_of_nonneg hnonneg, habs] at hvalue
  rw [nearest_eq_of_nearest? hx]
  exact ⟨hx, hnonneg, by linarith⟩

end Binary64

end PatchReview
