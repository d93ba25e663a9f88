import Mathlib
import PatchReview.Complexity.Analysis
import PatchReview.Proofs.Complexity.Brace
import PatchReview.Proofs.Number.Range
import PatchReview.Proofs.Text.Lines

set_option autoImplicit false

namespace PatchReview

theorem Pattern.length_spansFrom_le (p : Pattern) (n : ℕ) (prev : Option Char) (taken : ℕ)
    (t : Text) : (p.spansFrom n prev taken t).length ≤ t.length := by
  induction t generalizing n prev taken with
  | nil => exact Nat.le_refl 0
  | cons c t ih =>
    cases taken with
    | succ k => exact Nat.le_succ_of_le (ih (n + 1) (some c) k)
    | zero =>
      rw [spansFrom]
      split
      · exact Nat.le_succ_of_le (ih (n + 1) (some c) 0)
      · exact Nat.succ_le_succ (ih (n + 1) (some c) _)

theorem Pattern.count_le_length (p : Pattern) (t : Text) : p.count t ≤ t.length :=
  length_spansFrom_le p 0 none 0 t

namespace Text

theorem ended_eq_unlines {ls : List Text} (h : ls ≠ []) : ended ls = unlines ls ++ ['\n'] := by
  induction ls with
  | nil => exact absurd rfl h
  | cons l ls ih =>
    cases ls with
    | nil => simp [ended, unlines]
    | cons m ls => rw [ended_cons, ih (by simp), unlines_cons_cons, List.append_assoc]; rfl

theorem length_unlines_le (ls : List Text) : (unlines ls).length ≤ (ended ls).length := by
  cases ls with
  | nil => exact Nat.zero_le _
  | cons l ls => simp [ended_eq_unlines]

theorem length_le_length_ended (ls : List Text) : ls.length ≤ (ended ls).length := by
  induction ls with
  | nil => exact Nat.zero_le _
  | cons l ls ih =>
    rw [ended_cons, List.length_append, List.length_cons, List.length_cons]
    omega

theorem length_ended_le {ls : List Text} {t : Text} (h : ls <:+: lines t) :
    (ended ls).length ≤ t.length + 1 := by
  obtain ⟨before, after, hlines⟩ := h
  have hall : ended (lines t) = t ++ ['\n'] := by
    rw [ended_eq_unlines (lines_ne_nil t), unlines_lines]
  have hlength := congrArg List.length hall
  rw [← hlines] at hlength
  simp only [ended, List.flatMap_append, List.length_append, List.length_cons,
    List.length_nil] at hlength ⊢
  omega

end Text

namespace Complexity

theorem Indent.indentedRun_isPrefix (margin : ℕ) (ls : List Text) :
    indentedRun margin ls <+: ls := by
  induction ls with
  | nil => exact List.prefix_rfl
  | cons l ls ih =>
    have hcons : l :: indentedRun margin ls <+: l :: ls := List.cons_prefix_cons.2 ⟨rfl, ih⟩
    rw [indentedRun]
    split_ifs
    · split
      · exact List.nil_prefix
      · exact hcons
    · exact List.nil_prefix
    · exact hcons

theorem Brace.lines_infix_of_mem_blocks {code : Text} {b : Block} (h : b ∈ Brace.blocks code) :
    b.lines <:+: Text.lines code :=
  (lines_of_mem_blocks h).2.1.isInfix.trans (List.drop_suffix _ _).isInfix

theorem Indent.blockLines_isPrefix (line : Text) (rest : List Text) :
    blockLines line rest <+: line :: rest := by
  have hsplit := splitSignature_append 0 (line :: rest)
  rw [← hsplit]
  exact (List.prefix_append_right_inj _).2 (indentedRun_isPrefix _ _)

theorem Indent.lines_infix_of_mem_blocks {code : Text} {b : Block} (h : b ∈ Indent.blocks code) :
    b.lines <:+: Text.lines code := by
  obtain ⟨before, line, rest, hlines, hb⟩ := mem_blocksFrom.1 h
  obtain ⟨name, -, rfl⟩ := Option.map_eq_some_iff.1 hb
  rw [hlines]
  exact (blockLines_isPrefix line rest).isInfix.trans (List.suffix_append _ _).isInfix

theorem Profile.lines_infix_of_mem_blocks {p : Profile} {code : Text} {b : Block}
    (h : b ∈ p.blocks code) : b.lines <:+: Text.lines code := by
  cases p with
  | brace => exact Brace.lines_infix_of_mem_blocks h
  | indent => exact Indent.lines_infix_of_mem_blocks h

theorem Brace.cyclomatic_le (body : Text) : cyclomatic body ≤ 10 * body.length + 1 := by
  have hsum : (decisions.map (·.count body)).sum ≤ decisions.length * body.length := by
    rw [← List.length_map (·.count body)]
    refine List.sum_le_card_nsmul _ _ fun n hn => ?_
    obtain ⟨p, -, rfl⟩ := List.mem_map.1 hn
    exact p.count_le_length body
  have hten : decisions.length = 10 := rfl
  rw [hten] at hsum
  rw [cyclomatic]
  omega

theorem Indent.cyclomatic_le (body : Text) : cyclomatic body ≤ body.length + 1 := by
  have hcount := decision.count_le_length body
  rw [cyclomatic]
  omega

theorem Profile.cyclomatic_le (p : Profile) (body : Text) :
    p.cyclomatic body ≤ 10 * body.length + 1 := by
  cases p with
  | brace => exact Brace.cyclomatic_le body
  | indent => exact (Indent.cyclomatic_le body).trans (by omega)

def sizeBound (code : Text) : ℕ := 10 * code.length + 11

theorem measured_le {p : Profile} {code : Text} {m : Measured} (h : m ∈ p.measure code) :
    m.cyclomatic ≤ sizeBound code ∧ m.length ≤ sizeBound code := by
  obtain ⟨b, hb, rfl⟩ := List.mem_map.1 h
  have hroom := Text.length_ended_le (p.lines_infix_of_mem_blocks hb)
  have hbody : b.body.length ≤ code.length + 1 := (Text.length_unlines_le b.lines).trans hroom
  have hlength : b.length ≤ code.length + 1 := (Text.length_le_length_ended b.lines).trans hroom
  have hcyclomatic := p.cyclomatic_le b.body
  simp only [sizeBound, Measured.length]
  omega

def roundHalfUp? (scale : ℕ) (x : Binary64) : Option Binary64 := do
  let scaled ← Binary64.nearest? (x.toRat * scale)
  let raised ← Binary64.nearest? (scaled.toRat + 1 / 2)
  Binary64.nearest? ((raised.toRat.floor : ℚ) / scale)

theorem roundHalfUp?_eq_some {scale : ℕ} {x : Binary64} {bound : ℚ} (hscale : 0 < scale)
    (hx : 0 ≤ x.toRat) (hle : x.toRat * scale ≤ bound)
    (hbound : 4 * bound + 1 ≤ Binary64.safeBound) :
    roundHalfUp? scale x = some (roundHalfUp scale x) := by
  have hnonneg : 0 ≤ x.toRat * scale := mul_nonneg hx (Nat.cast_nonneg scale)
  obtain ⟨hscaled, hscaled_nonneg, hscaled_le⟩ :=
    Binary64.exists_nearest?_of_le hnonneg hle (by linarith)
  generalize hs : Binary64.nearest (x.toRat * scale) = scaled at *
  obtain ⟨hraised, hraised_nonneg, hraised_le⟩ :=
    Binary64.exists_nearest?_of_le (q := scaled.toRat + 1 / 2) (by linarith)
      (add_le_add_left hscaled_le (1 / 2)) (by linarith)
  generalize hr : Binary64.nearest (scaled.toRat + 1 / 2) = raised at *
  have hfloor_nonneg : (0 : ℚ) ≤ raised.toRat.floor := by
    exact_mod_cast Int.floor_nonneg.2 hraised_nonneg
  have hfloor_le : (raised.toRat.floor : ℚ) ≤ raised.toRat := Rat.floor_le raised.toRat
  have hquot : (raised.toRat.floor : ℚ) / scale ≤ raised.toRat :=
    (div_le_self hfloor_nonneg (by exact_mod_cast hscale)).trans hfloor_le
  obtain ⟨hlast, -, -⟩ := Binary64.exists_nearest?_of_le
    (div_nonneg hfloor_nonneg (Nat.cast_nonneg scale)) hquot (by linarith)
  simp only [roundHalfUp?, roundHalfUp, hs, hr, hscaled, hraised, Option.bind_eq_bind,
    Option.bind_some]
  exact hlast

def mean? (total count : ℕ) : Option Binary64 :=
  if count = 0 then none else Binary64.nearest? ((total : ℚ) / count)

theorem mean?_eq_some {values : List ℕ} {bound : ℕ} (hne : values ≠ [])
    (hle : ∀ n ∈ values, n ≤ bound) (hbound : (bound : ℚ) ≤ Binary64.safeBound) :
    mean? values.sum values.length = some (mean values.sum values.length) ∧
      0 ≤ (mean values.sum values.length).toRat ∧
      (mean values.sum values.length).toRat ≤ 2 * bound := by
  have hlength : 0 < values.length := List.length_pos_iff.2 hne
  have hsum : values.sum ≤ values.length * bound := List.sum_le_card_nsmul values bound hle
  have hquot : (values.sum : ℚ) / values.length ≤ bound := by
    rw [div_le_iff₀ (by exact_mod_cast hlength), mul_comm]
    exact_mod_cast hsum
  rw [mean?, if_neg hlength.ne', mean]
  exact Binary64.exists_nearest?_of_le (by positivity) hquot hbound

def Metrics.ofMeasured? (functions : List Measured) : Option Metrics := do
  let cyclomatic ← mean? (functions.map (·.cyclomatic)).sum functions.length
  let length ← mean? (functions.map (·.length)).sum functions.length
  let avgCyclomatic ← roundHalfUp? 10 cyclomatic
  let avgLength ← roundHalfUp? 1 length
  some {
    avgCyclomatic := .double avgCyclomatic
    maxNesting := ((functions.map (·.nesting)).foldl max 0 : ℕ)
    avgLength := avgLength.toRat.floor }

/-- The report, absent when a step of a mean is out of range. -/
def analyze? (profile : Profile) (code : Text) (file : Option Text) : Option Report :=
  let functions := profile.measure code
  if functions.isEmpty then some .blank
  else (Metrics.ofMeasured? functions).map fun metrics =>
    ⟨metrics, functions.filterMap (·.hotspot? (shownFile file)), functions.length⟩

theorem Metrics.ofMeasured?_eq_some {functions : List Measured} {bound : ℕ} (hne : functions ≠ [])
    (hle : ∀ m ∈ functions, m.cyclomatic ≤ bound ∧ m.length ≤ bound)
    (hbound : 80 * (bound : ℚ) + 1 ≤ Binary64.safeBound) :
    Metrics.ofMeasured? functions = some (Metrics.ofMeasured functions) := by
  have hsafe : (bound : ℚ) ≤ Binary64.safeBound := by
    have hnonneg : (0 : ℚ) ≤ bound := Nat.cast_nonneg bound
    linarith
  have hmean (measure : Measured → ℕ) (hm : ∀ m ∈ functions, measure m ≤ bound) :=
    @mean?_eq_some (functions.map measure) bound (by simpa using hne) (by simpa using hm) hsafe
  simp only [List.length_map] at hmean
  obtain ⟨hcyclomatic, hcyclomatic_nonneg, hcyclomatic_le⟩ :=
    hmean (·.cyclomatic) fun m hm => (hle m hm).1
  obtain ⟨hlength, hlength_nonneg, hlength_le⟩ := hmean (·.length) fun m hm => (hle m hm).2
  have htenths := @roundHalfUp?_eq_some 10 _ (20 * bound) (by decide) hcyclomatic_nonneg
    (by push_cast; linarith) (by linarith)
  have hones := @roundHalfUp?_eq_some 1 _ (2 * bound) (by decide) hlength_nonneg
    (by push_cast; linarith) (by linarith)
  simp only [ofMeasured?, hcyclomatic, hlength, htenths, hones, Option.bind_eq_bind,
    Option.bind_some]
  rfl

theorem analyze?_eq_some {code : Text} (h : (code.length : ℚ) < Binary64.countBound)
    (profile : Profile) (file : Option Text) :
    analyze? profile code file = some (analyze profile code file) := by
  simp only [analyze?, analyze, Report.ofMeasured]
  by_cases hnone : (profile.measure code).isEmpty
  · simp [hnone]
  · have hsafe : 80 * (sizeBound code : ℚ) + 1 ≤ Binary64.safeBound := by
      have hcount := Binary64.mul_countBound_le
      have hnonneg : (0 : ℚ) ≤ code.length := Nat.cast_nonneg _
      rw [sizeBound]
      push_cast
      linarith
    rw [Metrics.ofMeasured?_eq_some (by simpa using hnone) (fun m hm => measured_le hm) hsafe]
    simp [hnone]

end Complexity

end PatchReview
