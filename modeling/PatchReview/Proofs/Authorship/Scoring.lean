import PatchReview.Authorship.Detection
import PatchReview.Proofs.Fallible
import PatchReview.Proofs.Number.Precision

/-!
How the signals of a diff add up. The weights are summed as floating-point numbers, and still the
confidence is the sum of the percentages of the signals that fire, the risk follows from it, and
the report lists those signals. Main statement: `detect_scores`.
-/

set_option autoImplicit false

namespace PatchReview.Authorship

open PatchReview.Diff

inductive SignalKind where
  | additionRatio | singleCommit | verboseComments | stepComments | genericNames | placeholders
  | flaggedSections
  deriving DecidableEq, Repr

namespace SignalKind

def all : List SignalKind :=
  [additionRatio, singleCommit, verboseComments, stepComments, genericNames, placeholders,
    flaggedSections]

def percent : SignalKind → ℕ
  | additionRatio => 25
  | singleCommit => 20
  | verboseComments => 15
  | stepComments => 15
  | genericNames => 10
  | placeholders => 10
  | flaggedSections => 15

end SignalKind

namespace Evidence

def Fires (e : Evidence) : SignalKind → Prop
  | .additionRatio => 5 < e.ratio.toRat ∧ 100 < e.additions
  | .singleCommit => e.commits = 1 ∧ 200 < e.additions
  | .verboseComments => 5 < e.verboseComments
  | .stepComments => 2 < e.stepComments
  | .genericNames => 5 < e.genericNames
  | .placeholders => 2 < e.placeholders
  | .flaggedSections => e.sections ≠ []

instance (e : Evidence) : DecidablePred e.Fires
  | .additionRatio => inferInstanceAs (Decidable (_ ∧ _))
  | .singleCommit => inferInstanceAs (Decidable (_ ∧ _))
  | .verboseComments => inferInstanceAs (Decidable (_ < _))
  | .stepComments => inferInstanceAs (Decidable (_ < _))
  | .genericNames => inferInstanceAs (Decidable (_ < _))
  | .placeholders => inferInstanceAs (Decidable (_ < _))
  | .flaggedSections => inferInstanceAs (Decidable (_ ≠ _))

def fired (e : Evidence) : List SignalKind := SignalKind.all.filter (e.Fires ·)

/-- The percentages of the signals that fire, a hundred at most. -/
def points (e : Evidence) : ℕ := min 100 (e.fired.map (·.percent)).sum

def signal (e : Evidence) : SignalKind → Signal
  | .additionRatio => .additionRatio (roundedRatio e.ratio)
  | .singleCommit => .singleCommit e.additions
  | .verboseComments => .verboseComments e.verboseComments
  | .stepComments => .stepComments e.stepComments
  | .genericNames => .genericNames e.genericNames
  | .placeholders => .placeholders e.placeholders
  | .flaggedSections => .flaggedSections

def Says (e : Evidence) : List SignalKind → List Text → Prop :=
  List.Forall₂ fun k text => (e.signal k).message? = some text

theorem weight_signal (e : Evidence) (k : SignalKind) : (e.signal k).weight = k.percent := by
  cases k <;> rfl

theorem flatMap_when {α : Type} (p : α → Bool) (f : α → Signal) (l : List α) :
    l.flatMap (fun a => when (p a) (f a)) = (l.filter p).map f := by
  induction l with
  | nil => rfl
  | cons a l ih =>
    rw [List.flatMap_cons, ih, List.filter_cons, when]
    split_ifs <;> rfl

theorem signals_eq (e : Evidence) : e.signals = e.fired.map e.signal := by
  have hratio : decide (e.Fires .additionRatio) =
      (decide (5 < e.ratio.toRat) && decide (100 < e.additions)) := Bool.decide_and _ _
  have hcommit : decide (e.Fires .singleCommit) = (e.commits == 1 && decide (200 < e.additions)) :=
    Bool.decide_and _ _
  have hsections : decide (e.Fires .flaggedSections) = !e.sections.isEmpty := by
    rw [Bool.eq_iff_iff, decide_eq_true_iff]
    simp [Fires]
  rw [fired, ← flatMap_when, signals, ← hratio, ← hcommit, ← hsections]
  simp only [SignalKind.all, List.flatMap_cons, List.flatMap_nil, List.append_nil,
    List.append_assoc]
  rfl

theorem sum_percent_fired_le (e : Evidence) : (e.fired.map (·.percent)).sum ≤ 110 :=
  ((List.filter_sublist (l := SignalKind.all)).map _).sum_le_sum fun _ _ => Nat.zero_le _

end Evidence

theorem share_eq (e : Evidence) (k : SignalKind) :
    (e.signal k).share = Binary64.nearest (k.percent / 100) := by
  rw [Signal.share, e.weight_signal]

theorem total_append_singleton (signals : List Signal) (s : Signal) :
    total (signals ++ [s]) = Binary64.nearest ((total signals).toRat + s.share.toRat) :=
  List.foldl_append

/-- The floating-point sum stays next to the sum of the percentages. -/
theorem total_spec (e : Evidence) (kinds : List SignalKind)
    (h : (kinds.map (·.percent)).sum ≤ 110) :
    (total (kinds.map e.signal)).negative = false ∧
      |(total (kinds.map e.signal)).toRat - ((kinds.map (·.percent)).sum : ℕ) / 100| ≤
        ((kinds.map (·.percent)).sum : ℕ) / 2 ^ 50 := by
  induction kinds using List.reverseRecOn with
  | nil => exact ⟨rfl, by simp [total, Binary64.abs_toRat, Binary64.zero]⟩
  | append_singleton kinds k ih =>
    have hk : 1 ≤ k.percent := by cases k <;> decide
    simp only [List.map_append, List.map_singleton, List.sum_append, List.sum_singleton,
      total_append_singleton, share_eq] at h ⊢
    have hsum := abs_sub_le_iff.1 (ih (by omega)).2
    generalize (total (kinds.map e.signal)).toRat = t at *
    generalize (kinds.map (·.percent)).sum = sum at *
    generalize k.percent = p at *
    have hp : (1 : ℚ) ≤ p := by exact_mod_cast hk
    have hbound : (sum : ℚ) + p ≤ 110 := by exact_mod_cast h
    have hnonneg : (0 : ℚ) ≤ sum := Nat.cast_nonneg sum
    have hshare := abs_sub_le_iff.1
      (Binary64.abs_nearest_sub_le_of_le_two (q := p / 100) (by linarith) (by linarith))
    generalize (Binary64.nearest (p / 100 : ℚ)).toRat = share at *
    have hlow : 0 ≤ t + share := by linarith
    have hhigh : t + share ≤ 2 := by linarith
    have hround := abs_sub_le_iff.1 (Binary64.abs_nearest_sub_le_of_le_two hlow hhigh)
    refine ⟨Binary64.negative_nearest hlow (hhigh.trans Binary64.two_le_safeBound), ?_⟩
    rw [Nat.cast_add]
    exact abs_sub_le_iff.2 ⟨by linarith, by linarith⟩

theorem confidence_signals (e : Evidence) :
    confidence e.signals = .double (Binary64.nearest (e.points / 100)) := by
  obtain ⟨hsign, htotal⟩ := total_spec e e.fired e.sum_percent_fired_le
  have hle := e.sum_percent_fired_le
  rw [← e.signals_eq] at hsign htotal
  rw [Evidence.points]
  generalize (e.fired.map (·.percent)).sum = sum at *
  have hsum : (sum : ℚ) ≤ 110 := by exact_mod_cast hle
  have hclose : |(total e.signals).toRat * 10 ^ 2 - sum| < 1 / 2 := by
    have hbounds := abs_sub_le_iff.1 htotal
    exact abs_sub_lt_iff.2 ⟨by linarith, by linarith⟩
  have hsafe : (sum : ℚ) / 10 ^ 2 ≤ Binary64.safeBound :=
    le_trans (by linarith) Binary64.two_le_safeBound
  have hrounded : (total e.signals).toPlaces 2 = Binary64.nearest (sum / 100) := by
    rw [Binary64.toPlaces_eq hsign hclose hsafe]
    norm_num
  have hcap := Binary64.nearest_hundredths_lt_iff (m := 100) (n := sum) (by decide) (by omega)
  rw [Nat.cast_ofNat, div_self (by decide)] at hcap
  rw [confidence, hrounded]
  simp only [hcap]
  split_ifs with hover
  · rw [min_eq_left hover.le]
    norm_num
  · rw [min_eq_right (not_lt.1 hover)]

def riskOf (points : ℕ) : RiskLevel :=
  if 70 < points then .high
  else if 40 < points then .medium
  else if 20 < points then .low
  else .none

theorem ofConfidence_hundredths {n : ℕ} (h : n ≤ 100) :
    RiskLevel.ofConfidence (.double (Binary64.nearest (n / 100))) = riskOf n := by
  have habove {m : ℕ} {bound : ℚ} (hm : m ≤ 100) (hbound : bound = m / 100) :
      (Number.double (Binary64.nearest (n / 100))).isAbove (Binary64.nearest bound).toRat =
        decide (m < n) := by
    rw [Number.isAbove, hbound, Bool.eq_iff_iff, decide_eq_true_iff, decide_eq_true_iff]
    exact Binary64.nearest_hundredths_lt_iff (by omega) (by omega)
  rw [RiskLevel.ofConfidence, habove (m := 70) (by decide) (by norm_num),
    habove (m := 40) (by decide) (by norm_num), habove (m := 20) (by decide) (by norm_num)]
  simp only [riskOf, decide_eq_true_iff]

def RiskLevel.rank (r : RiskLevel) : ℕ := RiskLevel.all.idxOf r

theorem rank_riskOf_mono {m n : ℕ} (h : m ≤ n) : (riskOf m).rank ≤ (riskOf n).rank := by
  simp only [riskOf]
  split_ifs <;> first | omega | decide

namespace Evidence

theorem mem_fired {e : Evidence} {k : SignalKind} : k ∈ e.fired ↔ e.Fires k := by
  have hall : k ∈ SignalKind.all := by cases k <;> decide
  rw [fired, List.mem_filter, decide_eq_true_iff, and_iff_right hall]

theorem fired_sublist_fired {e e' : Evidence} (h : ∀ k, e.Fires k → e'.Fires k) :
    e.fired.Sublist e'.fired :=
  List.monotone_filter_right _ fun k hk => decide_eq_true (h k (of_decide_eq_true hk))

theorem points_mono {e e' : Evidence} (h : ∀ k, e.Fires k → e'.Fires k) : e.points ≤ e'.points :=
  min_le_min_left 100 <|
    ((fired_sublist_fired h).map _).sum_le_sum fun _ _ => Nat.zero_le _

theorem says_filterMap (e : Evidence) (kinds : List SignalKind) :
    e.Says (kinds.filter (· ≠ .flaggedSections))
      ((kinds.map e.signal).filterMap (·.message?)) := by
  induction kinds with
  | nil => exact .nil
  | cons k kinds ih => cases k <;> first | exact ih | exact .cons rfl ih

end Evidence

namespace Report

/-- What a report says of the evidence. -/
structure Scores (r : Report) (e : Evidence) : Prop where
  confidence : r.confidence = .double (Binary64.nearest (e.points / 100))
  risk : r.risk = riskOf e.points
  signals : e.Says (e.fired.filter (· ≠ .flaggedSections)) r.signals
  sections : r.sections ≠ [] ↔ e.Fires .flaggedSections

/-- Neither confidence nor risk is higher than in the other report. -/
def IsAtMost (r r' : Report) : Prop :=
  (∃ x y, r.confidence = .double x ∧ r'.confidence = .double y ∧ x.toRat ≤ y.toRat) ∧
    r.risk.rank ≤ r'.risk.rank

theorem scores_ofEvidence (e : Evidence) : (ofEvidence e).Scores e where
  confidence := confidence_signals e
  risk := by
    rw [ofEvidence, confidence_signals]
    exact ofConfidence_hundredths (min_le_left _ _)
  signals := by
    rw [ofEvidence, e.signals_eq]
    exact e.says_filterMap e.fired
  sections := Iff.rfl

theorem Scores.isAtMost {r r' : Report} {e e' : Evidence} (hr : r.Scores e) (hr' : r'.Scores e')
    (h : ∀ k, e.Fires k → e'.Fires k) : r.IsAtMost r' := by
  have hpoints : e.points ≤ e'.points := Evidence.points_mono h
  refine ⟨⟨_, _, hr.confidence, hr'.confidence, ?_⟩, ?_⟩
  · have hle : e.points ≤ 100 := min_le_left _ _
    have hle' : e'.points ≤ 100 := min_le_left _ _
    rw [← not_lt, Binary64.nearest_hundredths_lt_iff (by omega) (by omega), not_lt]
    exact hpoints
  · rw [hr.risk, hr'.risk]
    exact rank_riskOf_mono hpoints

end Report

namespace Evidence

variable (d : Document) (diff : Text) {commits : ℤ}

theorem fired_ofDocument (h : commits ≠ 1) :
    (ofDocument d diff commits).fired =
      (ofDocument d diff 1).fired.filter (· ≠ .singleCommit) := by
  rw [fired, fired, List.filter_filter]
  refine List.filter_congr fun k _ => ?_
  rw [← Bool.decide_and, decide_eq_decide]
  cases k with
  | singleCommit => exact ⟨fun hk => absurd hk.1 h, fun hk => absurd rfl hk.1⟩
  | _ => exact ⟨fun hk => ⟨by decide, hk⟩, And.right⟩

theorem signals_ofDocument (h : commits ≠ 1) :
    (ofDocument d diff commits).signals =
      ((ofDocument d diff 1).fired.filter (· ≠ .singleCommit)).map
        (ofDocument d diff 1).signal := by
  rw [signals_eq, fired_ofDocument d diff h]
  refine List.map_congr_left fun k _ => ?_
  cases k <;> rfl

end Evidence

theorem Report.ofEvidence_ofDocument (d : Document) (diff : Text) {commits : ℤ} (h : commits ≠ 1) :
    ofEvidence (.ofDocument d diff commits) = ofEvidence (.ofDocument d diff 0) := by
  have hsignals : (Evidence.ofDocument d diff commits).signals =
      (Evidence.ofDocument d diff 0).signals :=
    (Evidence.signals_ofDocument d diff h).trans
      (Evidence.signals_ofDocument d diff (by decide)).symm
  rw [ofEvidence, ofEvidence, hsignals]
  rfl

/-- The report says what the signals of the diff add up to, it grows with them, and it tells no
number of commits but one from the others. -/
theorem detect_scores {diff : Text} {d : Document} (h : Document.parse diff = .ok d) :
    (∀ commits, ∃ r, detect diff commits = .ok r ∧ r.Scores (.ofDocument d diff commits)) ∧
    (∀ {diff' : Text} {d' : Document} {commits commits' : ℤ}, Document.parse diff' = .ok d' →
      (∀ k, (Evidence.ofDocument d diff commits).Fires k →
        (Evidence.ofDocument d' diff' commits').Fires k) →
      ∃ r r', detect diff commits = .ok r ∧ detect diff' commits' = .ok r' ∧ r.IsAtMost r') ∧
    ∃ r₁ r, detect diff 1 = .ok r₁ ∧ (∀ commits, commits ≠ 1 → detect diff commits = .ok r) ∧
      r.sections = r₁.sections ∧
      (Evidence.ofDocument d diff 1).Says ((Evidence.ofDocument d diff 1).fired.filter
        fun k => k ≠ .flaggedSections ∧ k ≠ .singleCommit) r.signals := by
  have hdetect {t : Text} {e : Document} (he : Document.parse t = .ok e) (commits : ℤ) :
      detect t commits = .ok (.ofEvidence (.ofDocument e t commits)) := by
    rw [detect, he]
    rfl
  refine ⟨fun commits => ⟨_, hdetect h commits, Report.scores_ofEvidence _⟩, ?_, ?_⟩
  · intro diff' d' commits commits' h' hfires
    exact ⟨_, _, hdetect h commits, hdetect h' commits',
      (Report.scores_ofEvidence _).isAtMost (Report.scores_ofEvidence _) hfires⟩
  · refine ⟨.ofEvidence (.ofDocument d diff 1), .ofEvidence (.ofDocument d diff 0), hdetect h 1,
      fun commits hne => ?_, rfl, ?_⟩
    · rw [hdetect h, Report.ofEvidence_ofDocument d diff hne]
    · have hsays := (Evidence.ofDocument d diff 1).says_filterMap
        ((Evidence.ofDocument d diff 1).fired.filter (· ≠ .singleCommit))
      have hsignals := Evidence.signals_ofDocument d diff (show (0 : ℤ) ≠ 1 by decide)
      rw [← hsignals, List.filter_filter] at hsays
      simpa only [Report.ofEvidence, Bool.decide_and] using hsays

/-- Three placeholders, and then three numbered steps besides. -/
theorem detect_scores_steps :
    let todos := "diff --git a/a.js b/a.js\n@@ -0,0 +1,3 @@\n+TODO:add\n+TODO:fix\n+TODO:add\n".toList
    let diff := todos ++ "+//Step 1\n+//Step 2\n+//Step 3\n".toList
    ∃ r r', detect todos 1 = .ok r ∧ detect diff 5 = .ok r' ∧ r.IsAtMost r' ∧ r.risk = .none ∧
      r'.confidence = .double (Binary64.nearest ((25 : ℕ) / 100)) ∧ r'.risk = .low := by
  intro todos diff
  obtain ⟨d, hd, hfired⟩ : ∃ d, Document.parse todos = .ok d ∧
      (Evidence.ofDocument d todos 1).fired = [.placeholders] := ⟨_, rfl, by decide +kernel⟩
  obtain ⟨d', hd', hfired'⟩ : ∃ d, Document.parse diff = .ok d ∧
      (Evidence.ofDocument d diff 5).fired = [.stepComments, .placeholders] :=
    ⟨_, rfl, by decide +kernel⟩
  have hfires : ∀ k, (Evidence.ofDocument d todos 1).Fires k →
      (Evidence.ofDocument d' diff 5).Fires k := by
    intro k hk
    rw [← Evidence.mem_fired, hfired] at hk
    rw [← Evidence.mem_fired, hfired']
    exact List.mem_cons_of_mem _ hk
  obtain ⟨r, r', hr, hr', hmost⟩ := (detect_scores hd).2.1 hd' hfires
  obtain ⟨_, hs, hscores⟩ := (detect_scores hd).1 1
  obtain ⟨_, hs', hscores'⟩ := (detect_scores hd').1 5
  rw [hr] at hs
  rw [hr'] at hs'
  cases hs
  cases hs'
  have hrisk := hscores.risk
  have hconfidence' := hscores'.confidence
  have hrisk' := hscores'.risk
  rw [Evidence.points, hfired] at hrisk
  rw [Evidence.points, hfired'] at hconfidence' hrisk'
  exact ⟨r, r', hr, hr', hmost, hrisk, hconfidence', hrisk'⟩

end PatchReview.Authorship
