import PatchReview.Proofs.Complexity.Size
import PatchReview.Proofs.Number.Scaled

set_option autoImplicit false

namespace PatchReview.Complexity

open Binary64

theorem roundHalfUp_mean {scale total count : ℕ} (hscale : scale ≤ 10) (htotal : total < 2 ^ 40)
    (hpos : 0 < count) (hscale_pos : 0 < scale) (hcount : count < 2 ^ 40)
    (hkeeps : KeepsHalves scale) :
    roundHalfUp scale (mean total count) = nearest (halfUp (scale * total) count / scale) := by
  have hfloor := floor_nearest_mul_add_half hscale htotal hpos hscale_pos hcount hkeeps
  rw [roundHalfUp, mean]
  congr 2
  exact_mod_cast hfloor

namespace Profile

theorem one_le_cyclomatic (p : Profile) (body : Text) : 1 ≤ p.cyclomatic body := by
  cases p with
  | brace => exact Nat.le_add_right 1 _
  | indent => exact Nat.le_add_right 1 _

def totalLength (p : Profile) (code : Text) : ℕ := ((p.blocks code).map (·.length)).sum

def totalCyclomatic (p : Profile) (code : Text) : ℕ :=
  ((p.blocks code).map fun b => p.cyclomatic b.body).sum

theorem length_blocks_le_totalCyclomatic (p : Profile) (code : Text) :
    (p.blocks code).length ≤ p.totalCyclomatic code := by
  have hsum := List.card_nsmul_le_sum ((p.blocks code).map fun b => p.cyclomatic b.body) 1
    (by simp [one_le_cyclomatic])
  simpa [totalCyclomatic] using hsum

end Profile

theorem metrics_analyze {p : Profile} {code : Text} (h : 0 < (p.blocks code).length)
    (file : Option Text) :
    (analyze p code file).metrics.avgCyclomatic =
        .double (roundHalfUp 10 (mean (p.totalCyclomatic code) (p.blocks code).length)) ∧
      (analyze p code file).metrics.avgLength =
        ⌊(roundHalfUp 1 (mean (p.totalLength code) (p.blocks code).length)).toRat⌋ := by
  have hlength : (p.measure code).length = (p.blocks code).length := List.length_map _
  have hnone : ¬ (p.measure code).isEmpty := by
    rw [List.isEmpty_iff_length_eq_zero, hlength]
    exact h.ne'
  rw [analyze, Report.ofMeasured, if_neg hnone, ← hlength]
  simp only [Metrics.ofMeasured, Profile.measure, List.map_map]
  exact ⟨rfl, rfl⟩

/-- The report shows the exact means, rounded half up to whole lines and to tenths of a decision. -/
theorem analyze_means {p : Profile} {code : Text} (hpos : 0 < (p.blocks code).length)
    (hlength : p.totalLength code < 2 ^ 40) (hcyclomatic : p.totalCyclomatic code < 2 ^ 40)
    (file : Option Text) :
    (analyze p code file).metrics.avgLength =
        halfUp (p.totalLength code) (p.blocks code).length ∧
      ∃ x : Binary64, (analyze p code file).metrics.avgCyclomatic = .double x ∧
        nearest? (halfUp (10 * p.totalCyclomatic code) (p.blocks code).length / 10) = some x ∧
        x.IsNearest (halfUp (10 * p.totalCyclomatic code) (p.blocks code).length / 10) := by
  have hcount := (p.length_blocks_le_totalCyclomatic code).trans_lt hcyclomatic
  obtain ⟨havg, hlines⟩ := metrics_analyze hpos file
  constructor
  · have hwhole : halfUp (p.totalLength code) (p.blocks code).length < 2 ^ 53 :=
      (halfUp_le _ hpos).trans_lt (by omega)
    rw [hlines, roundHalfUp_mean (by decide) hlength hpos one_pos hcount keepsHalves_one,
      Nat.one_mul, Nat.cast_one, div_one, toRat_nearest_natCast hwhole, Int.floor_natCast]
  · have hsafe := @halfUp_div_le_safeBound 10 _ _ le_rfl hcyclomatic hpos (by decide)
    rw [roundHalfUp_mean le_rfl hcyclomatic hpos (by decide) hcount keepsHalves_ten] at havg
    rw [Nat.cast_ofNat] at havg hsafe
    have hnonneg : (0 : ℚ) ≤
      halfUp (10 * p.totalCyclomatic code) (p.blocks code).length / 10 := by positivity
    exact ⟨_, havg, (exists_nearest?_of_le hnonneg hsafe le_rfl).1,
      isNearest_nearest hnonneg hsafe⟩

/-- A mean of 1.15, whose nearest number is below it and has a product with ten of 11.5. -/
theorem analyze_means_tie :
    let code := (List.replicate 10 "def f():\n  g()\n" ++ List.replicate 7 "def f(): g()\n"
      ++ List.replicate 3 "def f(): g() if x else h()\n").flatMap String.toList
    (analyze .indent code none).metrics.avgLength = 2 ∧
      ∃ x : Binary64, (analyze .indent code none).metrics.avgCyclomatic = .double x ∧
        nearest? (12 / 10) = some x ∧ x.IsNearest (12 / 10) := by
  intro code
  have hcount : (Profile.indent.blocks code).length = 20 := by decide +kernel
  have hlines : Profile.indent.totalLength code = 30 := by decide +kernel
  have hdecisions : Profile.indent.totalCyclomatic code = 23 := by decide +kernel
  have hmeans := @analyze_means .indent code (by rw [hcount]; decide) (by rw [hlines]; decide)
    (by rw [hdecisions]; decide) none
  rw [hcount, hlines, hdecisions] at hmeans
  exact hmeans

end PatchReview.Complexity
