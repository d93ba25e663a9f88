import PatchReview.Diff.FileDiff
import PatchReview.Proofs.Diff.Sections

set_option autoImplicit false

namespace PatchReview.Diff

theorem any_isGitMark_lines (t : Text) : (lines t).any isGitMark = (Text.lines t).any isGitMark :=
  any_lines rfl isGitMark_dropReturn t

theorem any_isDiffLine_lines (t : Text) :
    (lines t).any isDiffLine = (Text.lines t).any isDiffLine :=
  any_lines rfl isDiffLine_dropReturn t

theorem chunks_of_isGitMark {t : Text} {before : List Text} {ss : List (List Text)}
    (hg : (lines t).any isGitMark)
    (h : sectionsBy (fun l _ => isGitMark l) (lines t) = (before, ss)) (hss : ss ≠ []) :
    chunks t = ((if before.any isDiffLine then [before] else []) ++ ss).map Text.unlines := by
  have hcut : sectionsBy (opensFile ((lines t).any isGitMark)) (lines t) = (before, ss) := by
    rw [hg]
    exact h
  rw [chunks_of_cut hcut]
  simp [hss]

theorem sections_ne_nil {p : Text → Bool} {ls : List Text} (h : ls.any p) :
    (sectionsBy (fun l _ => p l) ls).2 ≠ [] := by
  induction ls with
  | nil => simp at h
  | cons l ls ih =>
    by_cases hl : p l
    · rw [sectionsBy_cons_of_opens hl]
      simp
    · rw [sectionsBy_cons_of_not_opens (Bool.not_eq_true _ ▸ hl)]
      exact ih (by simpa [hl] using h)

section
variable {d₁ d₂ : Text} (hend : d₁.getLast? = some '\n') (hd₂ : isGitMark d₂)
include hend hd₂

theorem sectionsBy_lines_append :
    sectionsBy (fun l _ => isGitMark l) (lines (d₁ ++ d₂)) =
      ((sectionsBy (fun l _ => isGitMark l) (lines d₁)).1,
        (sectionsBy (fun l _ => isGitMark l) (lines d₁)).2 ++
          (sectionsBy (fun l _ => isGitMark l) (lines d₂)).2) := by
  -- The second text begins with a section of its own.
  obtain ⟨l, rest, hl, hg⟩ := exists_lines_of_isGitMark hd₂
  rw [lines_append hend]
  refine sectionsBy_append _ (fun _ _ => rfl) ?_
  rw [hl, sectionsBy_cons_of_opens hg]

theorem any_isGitMark_append : (lines (d₁ ++ d₂)).any isGitMark := by
  obtain ⟨l, rest, hl, hg⟩ := exists_lines_of_isGitMark hd₂
  simp [lines_append hend, hl, hg]

end

theorem any_isGitMark_of_isGitMark {t : Text} (h : isGitMark t) : (lines t).any isGitMark := by
  obtain ⟨l, rest, hl, hg⟩ := exists_lines_of_isGitMark h
  simp [hl, hg]

theorem chunks_of_isGitMark_text {t : Text} (h : isGitMark t) :
    chunks t = (sectionsBy (fun l _ => isGitMark l) (lines t)).2.map Text.unlines := by
  obtain ⟨l, rest, hl, hg⟩ := exists_lines_of_isGitMark h
  have hcut : sectionsBy (fun l _ => isGitMark l) (lines t) =
      ([], (sectionsBy (fun l _ => isGitMark l) (lines t)).2) := by
    rw [hl, sectionsBy_cons_of_opens hg]
  have hg' := any_isGitMark_of_isGitMark h
  rw [chunks_of_isGitMark hg' hcut (sections_ne_nil hg')]
  rfl

theorem chunks_append {d₁ d₂ : Text} (hend : d₁.getLast? = some '\n')
    (hd₁ : (Text.lines d₁).any isGitMark) (hd₂ : isGitMark d₂) :
    chunks (d₁ ++ d₂) = chunks d₁ ++ chunks d₂ := by
  rw [← any_isGitMark_lines] at hd₁
  have hne := sections_ne_nil hd₁
  rw [chunks_of_isGitMark (any_isGitMark_append hend hd₂) (sectionsBy_lines_append hend hd₂)
    (by simp [hne]), chunks_of_isGitMark hd₁ rfl hne, chunks_of_isGitMark_text hd₂,
    ← List.append_assoc, List.map_append]

theorem chunks_preamble {p d : Text} (hend : p.getLast? = some '\n')
    (hp : ∀ l ∈ Text.lines p, isGitMark l = false ∧ isDiffLine l = false) (hd : isGitMark d) :
    chunks (p ++ d) = chunks d := by
  have hg : (lines p).any isGitMark = false := by
    rw [any_isGitMark_lines, List.any_eq_false]
    exact fun l hl => by simp [(hp l hl).1]
  have hdiff : (lines p).any isDiffLine = false := by
    rw [any_isDiffLine_lines, List.any_eq_false]
    exact fun l hl => by simp [(hp l hl).2]
  have hcut : sectionsBy (fun l _ => isGitMark l) (lines p ++ []) = _ :=
    sectionsBy_append_of_not_opens [] fun l hl _ => by simpa using List.any_eq_false.1 hg l hl
  have hne := sections_ne_nil (any_isGitMark_of_isGitMark hd)
  rw [List.append_nil] at hcut
  rw [chunks_of_isGitMark (any_isGitMark_append hend hd) (sectionsBy_lines_append hend hd)
    (by simp [hne]), chunks_of_isGitMark_text hd, hcut]
  simp [sectionsBy, hdiff]

theorem Document.parse_of_chunks_append {t t₁ t₂ : Text} (h : chunks t = chunks t₁ ++ chunks t₂) :
    Document.parse t = (do
      let a ← Document.parse t₁
      let b ← Document.parse t₂
      .ok ⟨a.files ++ b.files⟩) := by
  simp only [Document.parse, h, List.mapM_append]
  cases (chunks t₁).mapM FileDiff.ofChunk with
  | error e => rfl
  | ok a => cases (chunks t₂).mapM FileDiff.ofChunk <;> rfl

/-- A git text behind another one is cut and read as if both stood alone, the first error being
that of the first text, and lines without a change in front of a git text do not matter. -/
theorem parse_append_sections :
    (∀ d₁ d₂ : Text, d₁.getLast? = some '\n' → (∃ l ∈ Text.lines d₁, isGitMark l) →
      startsWith "diff --git" d₂ →
      chunks (d₁ ++ d₂) = chunks d₁ ++ chunks d₂ ∧
      Document.parse (d₁ ++ d₂) = (do
        let a ← Document.parse d₁
        let b ← Document.parse d₂
        .ok ⟨a.files ++ b.files⟩)) ∧
    (∀ p d₂ : Text, p.getLast? = some '\n' →
      (∀ l ∈ Text.lines p, isGitMark l = false ∧ isDiffLine l = false) →
      startsWith "diff --git" d₂ → Document.parse (p ++ d₂) = Document.parse d₂) := by
  constructor
  · intro d₁ d₂ hend hd₁ hd₂
    have hchunks := chunks_append hend (List.any_eq_true.2 hd₁) hd₂
    exact ⟨hchunks, Document.parse_of_chunks_append hchunks⟩
  · intro p d₂ hend hp hd₂
    rw [Document.parse, Document.parse, chunks_preamble hend hp hd₂]

/-- Blank lines and carriage returns at the seam, and a preamble with a pair of path lines. -/
theorem parse_append_sections_seam :
    let first := "+x\ndiff --git a/x b/x\n@@ -1 +1 @@\n-a\r\n\r\n\n".toList
    let second := "diff --git a/y b/y\n@@ -2 +2 @@\n+b".toList
    let preamble := "From me\n--- a\n+++ b\n\n".toList
    chunks (first ++ second) = chunks first ++ chunks second ∧
      Document.parse (first ++ second) = (do
        let a ← Document.parse first
        let b ← Document.parse second
        .ok ⟨a.files ++ b.files⟩) ∧
      Document.parse (preamble ++ second) = Document.parse second := by
  intro first second preamble
  have hmark : ∃ l ∈ Text.lines first, isGitMark l :=
    ⟨"diff --git a/x b/x".toList, by decide, by decide⟩
  obtain ⟨hchunks, hparse⟩ := parse_append_sections.1 first second (by decide) hmark (by decide)
  exact ⟨hchunks, hparse,
    parse_append_sections.2 preamble second (by decide) (by decide) (by decide)⟩

end PatchReview.Diff
