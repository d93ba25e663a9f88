import PatchReview.Diff.FileDiff
import PatchReview.Proofs.Diff.HeaderForm
import PatchReview.Proofs.Diff.Sections
import PatchReview.Proofs.Fallible

set_option autoImplicit false

namespace PatchReview.Diff

section Kept
variable {α : Type} {g : Text → Option α}

theorem findSome?_sections {opens : Text → Bool} (h : ∀ l, opens l = false → g l = none)
    (ls : List Text) :
    (sectionsBy (fun l _ => opens l) ls).2.findSome? (fun s => s.head?.bind g) =
      ls.findSome? g := by
  induction ls with
  | nil => rfl
  | cons l ls ih =>
    by_cases hl : opens l
    · rw [sectionsBy_cons_of_opens hl, List.findSome?_cons, List.findSome?_cons, ih]
      rfl
    · rw [Bool.not_eq_true] at hl
      rw [sectionsBy_cons_of_not_opens hl, ih, List.findSome?_cons, h l hl]

theorem findSome?_filter {keep : Text → Bool} (h : ∀ l, keep l = false → g l = none)
    (ls : List Text) : (ls.filter keep).findSome? g = ls.findSome? g := by
  induction ls with
  | nil => rfl
  | cons l ls ih =>
    by_cases hl : keep l
    · rw [List.filter_cons_of_pos hl, List.findSome?_cons, List.findSome?_cons, ih]
    · rw [List.filter_cons_of_neg hl, ih, List.findSome?_cons, h l (Bool.not_eq_true _ ▸ hl)]

theorem findSome?_of_forall {f : List Text → Option α} {ss : List (List Text)}
    (h : ∀ s ∈ ss, f s = s.findSome? g) : ss.findSome? f = ss.flatten.findSome? g := by
  induction ss with
  | nil => rfl
  | cons s ss ih =>
    rw [List.flatten_cons, List.findSome?_append, List.findSome?_cons, h s List.mem_cons_self,
      ih fun m hm => h m (List.mem_cons_of_mem s hm)]
    cases s.findSome? g <;> rfl

variable (hnil : g [] = none) (hdrop : ∀ l, g (dropReturn l) = g l)
include hnil

theorem findSome?_dropLastEmpty (ls : List Text) :
    (dropLastEmpty ls).findSome? g = ls.findSome? g := by
  by_cases h : ls.getLast? = some []
  · obtain ⟨ms, rfl⟩ := List.getLast?_eq_some_iff.1 h
    rw [dropLastEmpty_append ms (by simp)]
    simp [dropLastEmpty, List.findSome?_append, hnil]
  · rw [dropLastEmpty_eq_self h]

include hdrop

theorem findSome?_lines (t : Text) : (lines t).findSome? g = (Text.lines t).findSome? g := by
  have hg : g ∘ dropReturn = g := funext hdrop
  rw [lines, findSome?_dropLastEmpty hnil, List.findSome?_map, hg]

theorem findSome?_lines_unlines {ls : List Text} (h : ∀ l ∈ ls, '\n' ∉ l) :
    (lines (Text.unlines ls)).findSome? g = ls.findSome? g := by
  rw [findSome?_lines hnil hdrop]
  by_cases hne : ls = []
  · subst hne
    simp [Text.unlines, Text.lines, hnil]
  · rw [Text.lines_unlines hne h]

/-- The cut into files drops only lines that show no change, and keeps the order of the others. -/
theorem findSome?_chunks (hdiff : ∀ l, isDiffLine l = false → g l = none) (t : Text) :
    (chunks t).findSome? (fun c => (lines c).findSome? g) = (lines t).findSome? g := by
  rcases hcut : sectionsBy (opensFile ((lines t).any isGitMark)) (lines t) with ⟨before, ss⟩
  have hjoin : ∀ s ∈ before :: ss, (lines (Text.unlines s)).findSome? g = s.findSome? g :=
    fun s hs => findSome?_lines_unlines hnil hdrop (newline_notMem_of_cut hcut hs)
  rw [chunks_of_cut hcut, ← flatten_of_cut hcut]
  by_cases hlead : before.any isDiffLine
  · cases ss with
    | nil =>
      -- Without a section the text itself is the one chunk.
      have hb : before = lines t := by simpa using flatten_of_cut hcut
      simp [hlead, ← hb]
    | cons s ss =>
      rw [← List.flatten_cons, ← findSome?_of_forall hjoin, if_neg (by simp), if_pos hlead,
        List.findSome?_map]
      rfl
  · have hnone : before.findSome? g = none := by
      rw [List.findSome?_eq_none_iff]
      intro l hl
      exact hdiff l (not_isDiffLine_of_not_any hlead l hl)
    rw [List.findSome?_append, hnone, Option.none_or,
      ← findSome?_of_forall fun s hs => hjoin s (List.mem_cons_of_mem before hs)]
    cases ss with
    | nil => simp [hlead]
    | cons s ss =>
      rw [if_neg (by simp), if_neg hlead, List.findSome?_map]
      rfl

end Kept

namespace Hunk

theorem failure?_ofSection (s : List Text) : failure? (ofSection s) = s.head?.bind tooLong? := by
  cases s with
  | nil => rfl
  | cons line content =>
    exact (failure?_bind_ok _ _).trans (HunkHeader.failure?_ofLine line)

theorem failure?_ofBody (body : List Text) : failure? (ofBody body) = body.findSome? tooLong? := by
  have hbody : failure? (ofBody body) =
      (sectionsBy (fun l _ => isHunkMark l) (body.filter (!isGitMark ·))).2.findSome?
        fun s => failure? (ofSection s) :=
    (failure?_bind_ok _ _).trans (failure?_mapM _)
  simp only [hbody, failure?_ofSection]
  rw [findSome?_sections fun _ => tooLong?_eq_none_of_not_isHunkMark, findSome?_filter]
  intro l hl
  refine tooLong?_eq_none_of_not_isHunkMark ?_
  have hgit : isGitMark l := by simpa using hl
  exact eq_false_of_head? head?_of_isHunkMark (head?_of_isGitMark hgit) (by decide)

end Hunk

theorem tooLong?_eq_none_of_not_isDiffLine {line : Text} (h : isDiffLine line = false) :
    tooLong? line = none := by
  simp only [isDiffLine, Bool.or_eq_false_iff] at h
  exact tooLong?_eq_none_of_not_isHunkMark h.1.1

theorem FileDiff.failure?_ofLines (text : Text) (ls : List Text) :
    failure? (ofLines text ls) = ls.findSome? tooLong? := by
  have hheader : (ls.takeWhile (!isDiffLine ·)).findSome? tooLong? = none := by
    rw [List.findSome?_eq_none_iff]
    intro l hl
    exact tooLong?_eq_none_of_not_isDiffLine (not_isDiffLine_of_mem_header hl)
  conv => rhs; rw [← List.takeWhile_append_dropWhile (p := (!isDiffLine ·)) (l := ls)]
  rw [List.findSome?_append, hheader, Option.none_or, ← Hunk.failure?_ofBody]
  exact failure?_bind_ok _ _

theorem Document.failure?_parse (t : Text) :
    failure? (Document.parse t) = (Text.lines t).findSome? tooLong? := by
  have hparse : failure? (Document.parse t) =
      (chunks t).findSome? fun c => failure? (FileDiff.ofChunk c) :=
    (failure?_bind_ok _ _).trans (failure?_mapM _)
  have hchunk (c : Text) : failure? (FileDiff.ofChunk c) = (lines c).findSome? tooLong? :=
    FileDiff.failure?_ofLines c (lines c)
  have hnil : tooLong? [] = none := rfl
  simp only [hparse, hchunk]
  rw [findSome?_chunks hnil tooLong?_dropReturn fun _ => tooLong?_eq_none_of_not_isDiffLine,
    findSome?_lines hnil tooLong?_dropReturn]

theorem Document.parse_eq_error_iff {t : Text} {e : NumberTooLong} :
    Document.parse t = .error e ↔ ∃ before line after, Text.lines t = before ++ line :: after ∧
      (∀ m ∈ before, Readable m) ∧
      ∃ (p : HeaderParts) (n : Text), p.Forms line ∧ p.FirstTooLong n ∧ e = ⟨n.length⟩ := by
  rw [← failure?_eq_some_iff, failure?_parse, List.findSome?_eq_some_iff]
  simp only [tooLong?_eq_some_iff, tooLong?_eq_none_iff]
  constructor
  · intro ⟨before, line, after, hlines, hline, hbefore⟩
    exact ⟨before, line, after, hlines, hbefore, hline⟩
  · intro ⟨before, line, after, hlines, hbefore, hline⟩
    exact ⟨before, line, after, hlines, hline, hbefore⟩

theorem lines_newStart {digits : Text} (h : Row isDigit digits) :
    Text.lines ("@@ -1 +".toList ++ digits ++ " @@".toList) =
      ["@@ -1 +".toList ++ digits ++ " @@".toList] := by
  refine Text.lines_of_notMem fun hnewline => ?_
  rw [List.mem_append, List.mem_append] at hnewline
  rcases hnewline with (hmem | hmem) | hmem
  · exact absurd hmem (by decide)
  · exact absurd (h.2 _ hmem) (by decide)
  · exact absurd hmem (by decide)

theorem Document.parse_newStart {digits : Text} (h : Row isDigit digits)
    (hlong : maxDigits < digits.length) :
    Document.parse ("@@ -1 +".toList ++ digits ++ " @@".toList) = .error ⟨digits.length⟩ :=
  parse_eq_error_iff.2 ⟨[], _, [], lines_newStart h, by simp, .ofNewStart digits, digits,
    HeaderParts.forms_ofNewStart h, HeaderParts.firstTooLong_ofNewStart hlong, rfl⟩

theorem Document.exists_parse_eq_error_iff {t : Text} :
    (∃ e, Document.parse t = .error e) ↔ ∃ line ∈ Text.lines t, ¬Readable line := by
  have hsome : (∃ e, failure? (Document.parse t) = some e) ↔ ¬failure? (Document.parse t) = none :=
    Option.ne_none_iff_exists'.symm
  simp only [← failure?_eq_some_iff, hsome]
  rw [failure?_parse, List.findSome?_eq_none_iff]
  simp only [tooLong?_eq_none_iff, not_forall, exists_prop]

end PatchReview.Diff
