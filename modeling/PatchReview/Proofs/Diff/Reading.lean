import Mathlib.Data.List.TakeWhile
import PatchReview.Diff.FileDiff
import PatchReview.Proofs.Diff.Sections
import PatchReview.Proofs.Fallible

set_option autoImplicit false

namespace PatchReview.Diff

/-- The number of a change counts the earlier lines of the changed file. -/
theorem numbered_eq_mapIdx (next : Nat) (edits : List Edit) :
    numbered next edits = edits.mapIdx fun i e =>
      ⟨e.kind, e.text, next + (edits.take i).countP (·.kind.inNewFile)⟩ := by
  induction edits generalizing next with
  | nil => rfl
  | cons e edits ih =>
    rw [numbered, ih, List.mapIdx_cons]
    congr 1
    refine List.mapIdx_eq_mapIdx_iff.2 fun i hi => ?_
    by_cases he : e.kind.inNewFile <;> simp [he]
    omega

/-- Lines of a hunk: a header line, and under it neither header lines nor git marks. -/
structure HunkSection (s : List Text) : Prop where
  opens : IsSection (fun l _ => isHunkMark l) s
  not_git : ∀ l ∈ s, isGitMark l = false

theorem HunkSection.of_lines {l : Text} {content : List Text} (hl : isHunkMark l)
    (hc : ∀ m ∈ content, isGitMark m = false ∧ isHunkMark m = false) :
    HunkSection (l :: content) where
  opens := isSection_of_first hl fun m hm => (hc m hm).2
  not_git m hm := by
    rcases List.mem_cons.1 hm with rfl | hm
    · exact isGitMark_of_isHunkMark hl
    · exact (hc m hm).1

theorem IsSection.exists_cons {opens : Text → List Text → Bool} {s : List Text}
    (h : IsSection opens s) : ∃ l rest r, s = l :: rest ∧ opens l r := by
  have hs : s ∈ (sectionsBy opens s).2 := by simp [h.alone]
  exact exists_cons_of_mem_sections hs

theorem Hunk.ofBody_flatten {ss : List (List Text)} (h : ∀ s ∈ ss, HunkSection s) :
    Hunk.ofBody ss.flatten = ss.mapM Hunk.ofSection := by
  have hfilter : ss.flatten.filter (!isGitMark ·) = ss.flatten := by
    rw [List.filter_eq_self]
    intro l hl
    obtain ⟨s, hs, hl⟩ := List.mem_flatten.1 hl
    simp [(h s hs).not_git l hl]
  have hcut := sectionsBy_flatten_of_isSection fun s hs => (h s hs).opens
  simp only [Hunk.ofBody, hfilter, hcut]
  cases ss.mapM Hunk.ofSection <;> rfl

namespace FileDiff

variable (text : Text)

theorem ofLines_header_append {head body : List Text} (hhead : ∀ l ∈ head, isDiffLine l = false)
    (hbody : body.head?.all isDiffLine) :
    ofLines text (head ++ body) = (do
      let hunks ← Hunk.ofBody body
      .ok ⟨(Identity.ofHeader head).readBody body, hunks, text⟩) := by
  have hall : ∀ l ∈ head, (!isDiffLine l) = true := fun l hl => by simp [hhead l hl]
  have hstop : body.takeWhile (!isDiffLine ·) = [] ∧ body.dropWhile (!isDiffLine ·) = body := by
    cases body with
    | nil => exact ⟨rfl, rfl⟩
    | cons l rest =>
      have hl : isDiffLine l := by simpa using hbody
      simp [hl]
  simp only [ofLines, List.takeWhile_append_of_pos hall, List.dropWhile_append_of_pos hall, hstop.1,
    hstop.2, List.append_nil]

/-- Header lines end where the hunks begin, and no line of a hunk says anything about paths. -/
theorem ofLines_append {head : List Text} {ss : List (List Text)}
    (hhead : ∀ l ∈ head, isDiffLine l = false) (h : ∀ s ∈ ss, HunkSection s) :
    ofLines text (head ++ ss.flatten) = (do
      let hunks ← ss.mapM Hunk.ofSection
      .ok ⟨Identity.ofHeader head, hunks, text⟩) := by
  have hbody : ss.flatten.head?.all isDiffLine := by
    cases ss with
    | nil => rfl
    | cons s ss =>
      obtain ⟨l, rest, _, rfl, hl⟩ := (h s List.mem_cons_self).opens.exists_cons
      exact isDiffLine_of_isHunkMark hl
  have hgit : ∀ l ∈ ss.flatten, isGitMark l = false := by
    intro l hl
    obtain ⟨s, hs, hl⟩ := List.mem_flatten.1 hl
    exact (h s hs).not_git l hl
  rw [ofLines_header_append text hhead hbody, Hunk.ofBody_flatten h,
    Identity.readBody_of_not_isGitMark hgit]

end FileDiff

/-- Lines of a file that are read as they are written, in a text with or without git marks. -/
structure FileSection (git : Bool) (s : List Text) : Prop where
  opens : IsSection (opensFile git) s
  plain : ∀ l ∈ s, Plain l
  last : s.getLast? ≠ some []

theorem Document.parse_ended {git : Bool} {ss : List (List Text)} (h : ∀ s ∈ ss, FileSection git s)
    (hg : ss ≠ [] → ss.flatten.any isGitMark = git) :
    Document.parse (Text.ended ss.flatten) = (do
      .ok ⟨← ss.mapM fun s => FileDiff.ofLines (Text.unlines s) s⟩) := by
  have hlines : lines (Text.ended ss.flatten) = ss.flatten := by
    refine lines_ended fun l hl => ?_
    obtain ⟨s, hs, hl⟩ := List.mem_flatten.1 hl
    exact (h s hs).plain l hl
  have hcut : sectionsBy (opensFile (ss.flatten.any isGitMark)) ss.flatten = ([], ss) := by
    by_cases hss : ss = []
    · subst hss
      rfl
    · rw [hg hss]
      exact sectionsBy_flatten_of_isSection fun s hs => (h s hs).opens
  have hchunks : chunks (Text.ended ss.flatten) = ss.map Text.unlines := by
    rw [chunks_of_cut (by rw [hlines, hcut])]
    cases ss <;> simp
  have hread : (ss.map Text.unlines).mapM FileDiff.ofChunk =
      ss.mapM fun s => FileDiff.ofLines (Text.unlines s) s := by
    rw [List.mapM_map]
    refine mapM_congr fun s hs => ?_
    rw [Function.comp_apply, FileDiff.ofChunk, lines_unlines (h s hs).plain (h s hs).last]
  rw [Document.parse, hchunks, hread]

end PatchReview.Diff
