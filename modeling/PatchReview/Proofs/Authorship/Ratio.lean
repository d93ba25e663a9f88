import PatchReview.Proofs.Authorship.Scoring
import PatchReview.Proofs.Diff.Lines
import PatchReview.Proofs.Number.HalfUp
import PatchReview.Proofs.Text.Decimal

set_option autoImplicit false

namespace PatchReview.Authorship

open PatchReview.Diff Binary64

/-- More than a hundred additions, and more than five for each deletion. -/
def IsHighRatio (additions deletions : ℕ) : Prop :=
  100 < additions ∧ (deletions = 0 ∨ 5 * deletions < additions)

instance (additions deletions : ℕ) : Decidable (IsHighRatio additions deletions) :=
  inferInstanceAs (Decidable (_ ∧ _))

/-- Without deletions ten, and else the quotient rounded half up. -/
def shownRatio (additions deletions : ℕ) : ℕ :=
  if deletions = 0 then 10 else halfUp additions deletions

def ratioLabel : String := "High addition ratio ("

def ratioText (ratio : ℕ) : Text :=
  ratioLabel.toList ++ Text.ofNat ratio ++ ":1) - typical of AI-generated code".toList

theorem message?_additionRatio (n : ℕ) :
    (Signal.additionRatio n).message? = some (ratioText n) :=
  congrArg (fun t => some (ratioLabel.toList ++ t ++ ":1) - typical of AI-generated code".toList))
    (Text.ofInt_natCast n)

theorem not_startsWith_ofNat_append (n : ℕ) (t : Text) :
    startsWith ratioLabel (Text.ofNat n ++ t) = false := by
  obtain ⟨c, cs, hdigits⟩ := List.exists_cons_of_ne_nil (Text.ofNat_ne_nil n)
  have hc : c.isDigit := Text.isDigit_of_mem_ofNat (hdigits ▸ List.mem_cons_self)
  refine eq_false_of_head? (head?_of_startsWith (c := 'H') (by decide)) (c := c) ?_ ?_
  · rw [hdigits]
    rfl
  · rintro rfl
    exact absurd hc (by decide)

namespace Evidence

variable {e : Evidence}

theorem ratio_of_deletions_eq_zero (h : 100 < e.additions) (hzero : e.deletions = 0) :
    e.ratio = nearest ((10 : ℕ) / (1 : ℕ)) := by
  -- With so many additions the value one is not taken.
  have hmany : 50 < (e.additions : ℤ) := by omega
  rw [ratio, exactRatio, hzero, if_neg (by decide), if_pos hmany]
  norm_num

theorem ratio_of_deletions_pos (hpos : 0 < e.deletions) :
    e.ratio = nearest (e.additions / e.deletions) := by
  have hpos' : 0 < (e.deletions : ℤ) := by exact_mod_cast hpos
  rw [ratio, exactRatio, if_pos hpos', Int.cast_natCast, Int.cast_natCast]

variable (hadd : e.additions < 2 ^ 50) (hdel : e.deletions < 2 ^ 50)
include hadd hdel

theorem fires_additionRatio_iff :
    e.Fires .additionRatio ↔ IsHighRatio e.additions e.deletions := by
  rw [Fires, IsHighRatio, and_comm, and_congr_right_iff]
  intro hmany
  rcases Nat.eq_zero_or_pos e.deletions with hzero | hpos
  · have hten := @lt_nearest_div_iff 10 1 (by decide) (by decide) (by decide) 5 (by decide)
    rw [Nat.cast_ofNat, ← ratio_of_deletions_eq_zero hmany hzero] at hten
    simp [hten, hzero]
  · have hquot := lt_nearest_div_iff hadd hdel hpos (b := 5) (by decide)
    rw [Nat.cast_ofNat, ← ratio_of_deletions_pos hpos] at hquot
    simp [hquot, hpos.ne']

theorem roundedRatio_ratio (h : 100 < e.additions) :
    roundedRatio e.ratio = shownRatio e.additions e.deletions := by
  rw [roundedRatio, shownRatio]
  split_ifs with hzero
  · rw [ratio_of_deletions_eq_zero h hzero]
    exact @floor_nearest_div_add_half 10 1 (by decide) (by decide) (by decide)
  · have hpos := Nat.pos_of_ne_zero hzero
    rw [ratio_of_deletions_pos hpos]
    exact floor_nearest_div_add_half hadd hdel hpos

omit hadd hdel

/-- The texts of all other signals begin with a count. -/
theorem startsWith_message_iff {k : SignalKind} {t : Text} (h : (e.signal k).message? = some t) :
    startsWith ratioLabel t ↔ k = .additionRatio := by
  cases k with
  | additionRatio =>
    rw [← Option.some.inj h, startsWith, List.isPrefixOf_iff_prefix, List.append_assoc]
    exact iff_of_true (List.prefix_append _ _) rfl
  | flaggedSections => exact absurd h (Option.some_ne_none t).symm
  | _ =>
    rw [← Option.some.inj h, not_startsWith_ofNat_append]
    decide

theorem filter_fired (e : Evidence) (k : SignalKind) :
    e.fired.filter (· = k) = if e.Fires k then [k] else [] := by
  have hall : SignalKind.all.filter (· = k) = [k] := by cases k <;> decide
  rw [fired, List.filter_comm, hall]
  simp only [List.filter_cons, List.filter_nil, decide_eq_true_eq]

end Evidence

theorem filter_signals (e : Evidence) :
    (Report.ofEvidence e).signals.filter (startsWith ratioLabel) =
      if e.Fires .additionRatio then (e.signal .additionRatio).message?.toList else [] := by
  have hkinds : (Report.ofEvidence e).signals.filter (startsWith ratioLabel) =
      (e.fired.filter (· = .additionRatio)).filterMap fun k => (e.signal k).message? := by
    rw [Report.ofEvidence, e.signals_eq, List.filterMap_map, List.filter_filterMap,
      List.filterMap_filter]
    refine List.filterMap_congr fun k _ => ?_
    cases hmessage : (e.signal k).message? with
    | none => simp [hmessage]
    | some t => simp [hmessage, Option.filter, Evidence.startsWith_message_iff hmessage]
  rw [hkinds, e.filter_fired]
  split_ifs <;> rfl

/-- The report decides on the ratio and shows it as if it were computed with whole numbers. -/
theorem detect_ratio {diff : Text} {d : Document} (h : Document.parse diff = .ok d)
    (hadd : d.additionCount < 2 ^ 50) (hdel : d.deletionCount < 2 ^ 50) (commits : ℤ) :
    ((Evidence.ofDocument d diff commits).Fires .additionRatio ↔
      IsHighRatio d.additionCount d.deletionCount) ∧
    ∃ r, detect diff commits = .ok r ∧ r.signals.filter (startsWith ratioLabel) =
      if IsHighRatio d.additionCount d.deletionCount then
        [ratioText (shownRatio d.additionCount d.deletionCount)]
      else [] := by
  have hfires := @Evidence.fires_additionRatio_iff (.ofDocument d diff commits) hadd hdel
  refine ⟨hfires, .ofEvidence (.ofDocument d diff commits), by rw [detect, h]; rfl, ?_⟩
  rw [filter_signals]
  simp only [hfires]
  refine if_ctx_congr Iff.rfl (fun hhigh => ?_) fun _ => rfl
  have hshown := @Evidence.roundedRatio_ratio (.ofDocument d diff commits) hadd hdel hhigh.1
  rw [Evidence.signal, hshown, message?_additionRatio]
  rfl

/-- A quotient of fifty and a half. -/
theorem detect_ratio_half :
    let diff := "diff --git a/a.py b/a.py\n@@ -1,2 +1,101 @@\n-x\n-y\n".toList
      ++ (List.replicate 101 "+z\n".toList).flatten
    ∃ r, detect diff 1 = .ok r ∧ r.signals.filter (startsWith ratioLabel) =
      ["High addition ratio (51:1) - typical of AI-generated code".toList] := by
  intro diff
  obtain ⟨d, hd, hcounts⟩ : ∃ d, Document.parse diff = .ok d ∧
      (d.additionCount, d.deletionCount) = (101, 2) := ⟨_, rfl, by decide +kernel⟩
  obtain ⟨hadd, hdel⟩ := Prod.mk.inj hcounts
  have hratio := (detect_ratio hd (by rw [hadd]; decide) (by rw [hdel]; decide) 1).2
  rw [hadd, hdel] at hratio
  exact hratio

end PatchReview.Authorship
