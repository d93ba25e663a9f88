import Mathlib
import PatchReview.Proofs.Authorship.Runs
import PatchReview.Proofs.Diff.Numbering

/-!
Line ranges of the flagged sections of a file. A run has one number per addition, and what is
between two runs only adds to the numbers, so the range that is read off the length of a run ends
before the next one begins. Main statement: `ranges_of_ofChunk`.
-/

set_option autoImplicit false

namespace PatchReview.Authorship

open PatchReview.Diff

/-- A later part of spaced changes begins behind the lines of an earlier one. -/
theorem pairwise_of_isSpaced_flatten {next : Nat} {parts : List (List LineChange)}
    (h : IsSpaced next parts.flatten) :
    parts.Pairwise fun part later => ∀ c ∈ part.head?, ∀ d ∈ later.head?,
      c.lineNumber + part.countP (·.kind.inNewFile) ≤ d.lineNumber := by
  induction parts generalizing next with
  | nil => exact .nil
  | cons part parts ih =>
    rw [List.flatten_cons] at h
    refine .cons (fun later hlater c hc d hd => ?_) (ih h.of_append)
    obtain ⟨x, y, rfl⟩ := List.append_of_mem hlater
    obtain ⟨part, rfl⟩ := List.head?_eq_some_iff.1 hc
    obtain ⟨later, rfl⟩ := List.head?_eq_some_iff.1 hd
    have hbehind : IsSpaced c.lineNumber ((c :: part ++ x.flatten) ++ d :: (later ++ y.flatten)) :=
      ⟨Nat.le_refl _, by simpa using h.2⟩
    have hd : c.lineNumber + (c :: part ++ x.flatten).countP (·.kind.inNewFile) ≤ d.lineNumber :=
      hbehind.of_append.1
    rw [List.countP_append] at hd
    omega

theorem isAdded_of_mem_additionRuns {changes run : List LineChange}
    (h : run ∈ additionRuns changes) : ∀ c ∈ run, isAdded c := by
  have hruns : (runsFrom 0 false changes).map Run.changes = additionRuns changes :=
    map_changes_runsFrom 0 false changes
  rw [← hruns] at h
  obtain ⟨r, hr, rfl⟩ := List.mem_map.1 h
  obtain ⟨-, -, -, -, hall, -⟩ := mem_runsFrom.1 hr
  exact hall

theorem countP_inNewFile_of_isAdded {run : List LineChange} (h : ∀ c ∈ run, isAdded c) :
    run.countP (·.kind.inNewFile) = run.length := by
  refine List.countP_eq_length.2 fun c hc => ?_
  have hkind : c.kind = .addition := beq_iff_eq.1 (h c hc)
  rw [hkind]
  rfl

theorem pairwise_additionRuns {next : Nat} {changes : List LineChange} (h : IsSpaced next changes) :
    (additionRuns changes).Pairwise fun run later => ∀ c ∈ run.head?, ∀ d ∈ later.head?,
      c.lineNumber + run.length ≤ d.lineNumber := by
  have hparts : IsSpaced next (changes.splitBy fun a b => isAdded a == isAdded b).flatten := by
    rwa [List.flatten_splitBy]
  have hruns : (additionRuns changes).Pairwise fun run later => ∀ c ∈ run.head?, ∀ d ∈ later.head?,
      c.lineNumber + run.countP (·.kind.inNewFile) ≤ d.lineNumber :=
    (pairwise_of_isSpaced_flatten hparts).filter _
  refine hruns.imp_of_mem fun {run later} hrun _ hle c hc d hd => ?_
  rw [← countP_inNewFile_of_isAdded (isAdded_of_mem_additionRuns hrun)]
  exact hle c hc d hd

theorem exists_of_inspectRun? {file : Text} {run : List LineChange} {s : FlaggedSection}
    (h : inspectRun? file run = some s) : 30 < run.length ∧ ∃ c ∈ run.head?,
      s.startLine = c.lineNumber ∧ s.endLine = c.lineNumber + run.length := by
  cases run with
  | nil => simp [inspectRun?] at h
  | cons c run =>
    rw [inspectRun?] at h
    split at h
    case isTrue hlong =>
      obtain ⟨hstart, hend⟩ := eq_of_inspectBlock? h
      rw [List.length_map] at hend
      exact ⟨hlong, c, rfl, hstart, hend⟩
    case isFalse => simp at h

/-- The ranges of the flagged sections are long, in the order of the lines, and disjoint. -/
theorem ranges_of_ofChunk {chunk : Text} {f : FileDiff} (hread : FileDiff.ofChunk chunk = .ok f)
    (hascend : f.HunksAscend) :
    (flaggedSections f).Pairwise (fun s later => s.endLine ≤ later.startLine ∧
      Disjoint (Set.Ico s.startLine s.endLine) (Set.Ico later.startLine later.endLine)) ∧
    ∀ s ∈ flaggedSections f, 30 < s.endLine - s.startLine := by
  have hspaced := FileDiff.isSpaced_changes_of_ofChunk hread hascend
  constructor
  · rw [flaggedSections, List.pairwise_filterMap]
    refine (pairwise_additionRuns hspaced).imp fun {run later} hle s hs s' hs' => ?_
    obtain ⟨-, c, hc, hstart, hend⟩ := exists_of_inspectRun? hs
    obtain ⟨-, d, hd, hstart', hend'⟩ := exists_of_inspectRun? hs'
    have hbefore : s.endLine ≤ s'.startLine := by
      have := hle c hc d hd
      rw [hend, hstart']
      omega
    exact ⟨hbefore, Set.Ico_disjoint_Ico.2 <|
      (min_le_left _ _).trans (hbefore.trans (le_max_right _ _))⟩
  · intro s hs
    obtain ⟨run, -, hs⟩ := List.mem_filterMap.1 hs
    obtain ⟨hlong, c, -, hstart, hend⟩ := exists_of_inspectRun? hs
    rw [hstart, hend]
    omega

/-- A run over the border of two hunks that are far apart, and a run right behind a deletion. -/
theorem ranges_of_ofChunk_border :
    let chunk := Text.unlines <| ["--- x", "+++ x", "@@ -0,0 +1,20 @@", "+// The first"].map
        String.toList ++ List.replicate 19 "+".toList ++ ["@@ -1,1 +50,45 @@".toList]
      ++ List.replicate 14 "+".toList ++ ["-".toList, "+// Step 2".toList]
      ++ List.replicate 30 "+".toList
    ∃ f, FileDiff.ofChunk chunk = .ok f ∧ f.HunksAscend ∧
      (flaggedSections f).map (fun s => (s.startLine, s.endLine)) = [(1, 35), (64, 95)] ∧
      (flaggedSections f).Pairwise (fun s later => s.endLine ≤ later.startLine ∧
        Disjoint (Set.Ico s.startLine s.endLine) (Set.Ico later.startLine later.endLine)) ∧
      ∀ s ∈ flaggedSections f, 30 < s.endLine - s.startLine := by
  intro chunk
  obtain ⟨f, hread, hascend, hsections⟩ : ∃ f, FileDiff.ofChunk chunk = .ok f ∧ f.HunksAscend ∧
      (flaggedSections f).map (fun s => (s.startLine, s.endLine)) = [(1, 35), (64, 95)] :=
    ⟨_, rfl, by decide, by decide⟩
  exact ⟨f, hread, hascend, hsections, ranges_of_ofChunk hread hascend⟩

end PatchReview.Authorship
