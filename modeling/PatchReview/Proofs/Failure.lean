import Mathlib
import PatchReview.Authorship.Detection
import PatchReview.Coverage.Mapping
import PatchReview.Proofs.Complexity.Size
import PatchReview.Proofs.Diff.Counts
import PatchReview.Proofs.Diff.Failure
import PatchReview.Security.Scan

/-!
What can fail. Reading a diff fails for a hunk header with a number that is too long, and so do the
tools that read one. The other steps that could fail do not: the line of a match is a line of the
code, and no quotient of counts is out of range. Main statement: `error_iff_numberTooLong`.
-/

set_option autoImplicit false

namespace PatchReview

open Diff

namespace Security

def Hit.finding? (lines : List Text) (file : Option Text) (h : Hit) : Option Finding :=
  lines[h.line - 1]?.map fun line =>
    { h.finding lines file with snippet := some ((Text.trim line).take maxSnippet) }

/-- The report, absent when the line of a match is missing. -/
def scan? (code : Text) (file : Option Text) : Option Report := do
  some ⟨← (distinctBy Hit.key (hits code)).mapM (Hit.finding? (Text.lines code) file)⟩

theorem line_lt_of_mem_hits {code : Text} {h : Hit} (hh : h ∈ hits code) :
    h.line - 1 < (Text.lines code).length := by
  obtain ⟨r, -, hr⟩ := List.mem_flatMap.1 hh
  obtain ⟨s, -, rfl⟩ := List.mem_map.1 hr
  have hcount : (code.take s.start).count '\n' ≤ code.count '\n' :=
    (List.take_sublist _ _).count_le _
  simp only [lineAt, Text.length_lines]
  omega

theorem scan?_eq_some (code : Text) (file : Option Text) :
    scan? code file = some (scan code file) := by
  have hfinding : ∀ h ∈ distinctBy Hit.key (hits code),
      Hit.finding? (Text.lines code) file h = some (h.finding (Text.lines code) file) := by
    intro h hh
    have hline := line_lt_of_mem_hits ((distinctFrom_sublist Hit.key [] (hits code)).mem hh)
    simp [Hit.finding?, List.getElem?_eq_getElem hline, Hit.finding, snippet]
  have hall : _ = some _ := mapM_eq_pure hfinding
  rw [scan?, hall]
  rfl

end Security

namespace Authorship

def Evidence.ratio? (e : Evidence) : Option (Binary64 × ℤ) := do
  let ratio ← Binary64.nearest? (exactRatio e.additions e.deletions)
  let raised ← Binary64.nearest? (ratio.toRat + 1 / 2)
  some (ratio, raised.toRat.floor)

theorem exactRatio_nonneg (additions deletions : ℕ) : 0 ≤ exactRatio additions deletions := by
  unfold exactRatio
  split_ifs
  · positivity
  · norm_num
  · norm_num

theorem exactRatio_le (additions deletions : ℕ) :
    exactRatio additions deletions ≤ additions + 10 := by
  have hnonneg : (0 : ℚ) ≤ additions := Nat.cast_nonneg additions
  unfold exactRatio
  split_ifs with hpos
  · have hone : (1 : ℚ) ≤ (deletions : ℤ) := by exact_mod_cast hpos
    have hquot : ((additions : ℤ) : ℚ) / (deletions : ℤ) ≤ additions := div_le_self hnonneg hone
    linarith
  · linarith
  · linarith

theorem Evidence.ratio?_eq_some {e : Evidence} {n : ℕ} (hn : (n : ℚ) < Binary64.countBound)
    (h : e.additions ≤ n + 1) : e.ratio? = some (e.ratio, roundedRatio e.ratio) := by
  have hadditions : (e.additions : ℚ) ≤ n + 1 := by exact_mod_cast h
  have hnonneg : (0 : ℚ) ≤ n := Nat.cast_nonneg n
  have hbound := Binary64.mul_countBound_le
  have hexact := exactRatio_le e.additions e.deletions
  obtain ⟨hratio, hratio_nonneg, hratio_le⟩ := Binary64.exists_nearest?_of_le
    (exactRatio_nonneg e.additions e.deletions) (hexact.trans (add_le_add_left hadditions 10))
    (by linarith)
  rw [← ratio] at hratio hratio_nonneg hratio_le
  obtain ⟨hraised, -, -⟩ := Binary64.exists_nearest?_of_le (q := e.ratio.toRat + 1 / 2)
    (by linarith) (add_le_add_left hratio_le (1 / 2)) (by linarith)
  simp only [ratio?, hratio, Option.bind_eq_bind, Option.bind_some, hraised]
  rfl

theorem additionCount_le {t : Text} {d : Document} (h : Document.parse t = .ok d) :
    d.additionCount ≤ t.length + 1 := by
  have hsum : d.additionCount = (Text.lines t).countP isAddition := by
    simp only [Document.additionCount, FileDiff.additionCount_eq]
    exact Document.sum_count shows_addition h
  have hlines := List.countP_le_length (p := isAddition) (l := Text.lines t)
  have hcount := List.count_le_length (a := '\n') (l := t)
  rw [Text.length_lines] at hlines
  omega

theorem detect_eq_error_iff {diff : Text} {commits : ℤ} {e : NumberTooLong} :
    detect diff commits = .error e ↔ Document.parse diff = .error e := by
  rw [← failure?_eq_some_iff, ← failure?_eq_some_iff]
  exact Eq.congr_left (failure?_bind_ok _ _)

end Authorship

theorem Coverage.mapTests_eq_error_iff {changed : List Text} {diff : Text} {e : NumberTooLong} :
    mapTests changed diff = .error e ↔ Document.parse diff = .error e := by
  rw [← failure?_eq_some_iff, ← failure?_eq_some_iff]
  exact Eq.congr_left (failure?_bind_ok _ _)

/-- Reading a text as a diff fails exactly when a line is a header with a number that is too long,
with the first such number of the first such line, and so do the two tools that read a diff. In the
other steps nothing is missing or out of range. -/
theorem error_iff_numberTooLong (t : Text) :
    (∀ e, Document.parse t = .error e ↔
      ∃ before line after, Text.lines t = before ++ line :: after ∧ (∀ m ∈ before, Readable m) ∧
        ∃ (p : HeaderParts) (n : Text), p.Forms line ∧ p.FirstTooLong n ∧ e = ⟨n.length⟩) ∧
    ((∃ e, Document.parse t = .error e) ↔
      ∃ line ∈ Text.lines t, ∃ p : HeaderParts, p.Forms line ∧
        ∃ n ∈ p.numbers, maxDigits < n.length) ∧
    (∀ commits e, Authorship.detect t commits = .error e ↔ Document.parse t = .error e) ∧
    (∀ changed e, Coverage.mapTests changed t = .error e ↔ Document.parse t = .error e) ∧
    (∀ file, Security.scan? t file = some (Security.scan t file)) ∧
    ((t.length : ℚ) < Binary64.countBound →
      (∀ profile file,
        Complexity.analyze? profile t file = some (Complexity.analyze profile t file)) ∧
      ∀ d commits, Document.parse t = .ok d →
        let e := Authorship.Evidence.ofDocument d t commits
        e.ratio? = some (e.ratio, Authorship.roundedRatio e.ratio)) := by
  refine ⟨fun e => Document.parse_eq_error_iff, ?_, fun _ _ => Authorship.detect_eq_error_iff,
    fun _ _ => Coverage.mapTests_eq_error_iff, Security.scan?_eq_some t, fun hsize => ⟨?_, ?_⟩⟩
  · rw [Document.exists_parse_eq_error_iff]
    simp only [Readable, not_forall, not_le, exists_prop]
  · exact Complexity.analyze?_eq_some hsize
  · intro d commits hd
    exact Authorship.Evidence.ratio?_eq_some hsize (Authorship.additionCount_le hd)

/-- Zeros at the front count as digits, and the start is too long however small it is. -/
theorem error_iff_numberTooLong_zeros :
    let t := "@@ -1 +".toList ++ List.replicate 4301 '0' ++ " @@".toList
    Document.parse t = .error ⟨4301⟩ ∧ Authorship.detect t 1 = .error ⟨4301⟩ := by
  intro t
  obtain ⟨hparse, -, hdetect, -⟩ := error_iff_numberTooLong t
  have hzeros : Row isDigit (List.replicate 4301 '0') := row_replicate (by decide) (by decide)
  have hlong : maxDigits < (List.replicate 4301 '0').length := by
    rw [List.length_replicate]
    decide
  have herror : Document.parse t = .error ⟨4301⟩ :=
    (hparse ⟨4301⟩).2 ⟨[], t, [], lines_newStart hzeros, by simp, .ofNewStart _, _,
      HeaderParts.forms_ofNewStart hzeros, HeaderParts.firstTooLong_ofNewStart hlong,
      by rw [List.length_replicate]⟩
  exact ⟨herror, (hdetect 1 ⟨4301⟩).2 herror⟩

end PatchReview
