import PatchReview.Proofs.Diff.Partition

/-!
Lines that are read again. The cut drops one carriage return of each line and the empty line at the
end of the text. A chunk that was cut off is read like a text of its own, so its lines lose these
once more. Main statement: `lines_of_chunks`.
-/

set_option autoImplicit false

namespace PatchReview.Diff

/-- What reading makes of lines: one carriage return goes from each, and an empty line at the end. -/
def tidied (ls : List Text) : List Text := dropLastEmpty (ls.map dropReturn)

theorem dropReturn_eq_self_iff {l : Text} : dropReturn l = l ↔ l.getLast? ≠ some '\r' := by
  refine ⟨fun h hr => ?_, dropReturn_eq_self⟩
  obtain ⟨m, rfl⟩ := List.getLast?_eq_some_iff.1 hr
  rw [dropReturn_append_return] at h
  exact absurd (congrArg List.length h) (by simp)

theorem dropLastEmpty_eq_self_iff {ls : List Text} :
    dropLastEmpty ls = ls ↔ ls.getLast? ≠ some [] := by
  refine ⟨fun h he => ?_, dropLastEmpty_eq_self⟩
  obtain ⟨ms, rfl⟩ := List.getLast?_eq_some_iff.1 he
  rw [dropLastEmpty_append ms (List.cons_ne_nil [] [])] at h
  exact absurd (congrArg List.length h) (by simp [dropLastEmpty])

theorem length_tidied_le (ls : List Text) : (tidied ls).length ≤ ls.length := by
  simpa [tidied] using (dropLastEmpty_isPrefix (ls.map dropReturn)).length_le

theorem tidied_eq_self_iff {ls : List Text} :
    tidied ls = ls ↔ ls.getLast? ≠ some [] ∧ ∀ l ∈ ls, l.getLast? ≠ some '\r' := by
  constructor
  · intro h
    -- No line is dropped, so what is left of each line is the line.
    have hlength : (tidied ls).length = (ls.map dropReturn).length := by rw [h, List.length_map]
    have hmap : ls.map dropReturn = ls :=
      ((dropLastEmpty_isPrefix _).eq_of_length hlength).symm.trans h
    refine ⟨dropLastEmpty_eq_self_iff.1 (by rw [tidied, hmap] at h; exact h), fun l hl => ?_⟩
    rw [← dropReturn_eq_self_iff]
    exact List.map_inj_left.1 (hmap.trans (List.map_id ls).symm) l hl
  · intro ⟨hlast, hreturn⟩
    have hmap : ls.map dropReturn = ls :=
      (List.map_congr_left fun l hl => dropReturn_eq_self (hreturn l hl)).trans (List.map_id ls)
    rw [tidied, hmap, dropLastEmpty_eq_self hlast]

section Parts
variable {α : Type} {f : List α → List α} (hf : ∀ s, (f s).length ≤ s.length)
include hf

theorem length_flatMap_le (ss : List (List α)) :
    (ss.flatMap f).length ≤ ss.flatten.length := by
  induction ss with
  | nil => exact Nat.le_refl 0
  | cons s ss ih =>
    have hs := hf s
    rw [List.flatMap_cons, List.flatten_cons, List.length_append, List.length_append]
    omega

theorem flatMap_eq_flatten_iff {ss : List (List α)} :
    ss.flatMap f = ss.flatten ↔ ∀ s ∈ ss, f s = s := by
  induction ss with
  | nil => simp
  | cons s ss ih =>
    rw [List.flatMap_cons, List.flatten_cons, List.forall_mem_cons, ← ih]
    constructor
    · intro h
      have hlength := congrArg List.length h
      rw [List.length_append, List.length_append] at hlength
      have hs := hf s
      have hss := length_flatMap_le hf ss
      exact List.append_inj h (by omega)
    · intro ⟨hs, hss⟩
      rw [hs, hss]

end Parts

theorem exists_lines_eq_append_pieces (t : Text) :
    ∃ above, lines t = above ++ (pieces t).flatten ∧ ∀ l ∈ above, isDiffLine l = false := by
  rcases hcut : sectionsBy (opensFile ((lines t).any isGitMark)) (lines t) with ⟨before, ss⟩
  rw [pieces_of_cut hcut, ← flatten_of_cut hcut]
  by_cases hlead : before.any isDiffLine
  · exact ⟨[], by simp [hlead], by simp⟩
  · exact ⟨before, by simp [hlead], not_isDiffLine_of_not_any hlead⟩

theorem map_lines_of_hasBoundary {t : Text} (h : HasBoundary (lines t)) :
    (chunks t).map lines = (pieces t).map tidied := by
  rw [← map_lines_chunks h, List.map_map]
  rfl

theorem map_lines_of_not_hasBoundary {t : Text} (h : ¬HasBoundary (lines t)) :
    (chunks t).map lines = pieces t := by
  rw [chunks_of_not_hasBoundary h, pieces_of_not_hasBoundary h]
  split <;> rfl

/-- The lines that the cut puts into the chunks are those of the text, tidied once, but for lines
that lead and show no change. Chunks of a text without a boundary are read with these lines. In a
text with one they are tidied again, so the lines stay the same just if no line of a chunk ends in
a carriage return of its own and no chunk ends in an empty line. -/
theorem lines_of_chunks (t : Text) :
    (∃ above, tidied (Text.lines t) = above ++ (pieces t).flatten ∧
      ∀ l ∈ above, isDiffLine l = false) ∧
    (¬HasBoundary (lines t) → (chunks t).map lines = pieces t) ∧
    (HasBoundary (lines t) → (chunks t).map lines = (pieces t).map tidied) ∧
    ((chunks t).flatMap lines = (pieces t).flatten ↔
      (HasBoundary (lines t) →
        ∀ s ∈ pieces t, s.getLast? ≠ some [] ∧ ∀ l ∈ s, l.getLast? ≠ some '\r')) := by
  refine ⟨exists_lines_eq_append_pieces t, map_lines_of_not_hasBoundary,
    map_lines_of_hasBoundary, ?_⟩
  rw [List.flatMap_def]
  by_cases hb : HasBoundary (lines t)
  · rw [map_lines_of_hasBoundary hb, ← List.flatMap_def, flatMap_eq_flatten_iff length_tidied_le]
    simp only [tidied_eq_self_iff, hb, true_imp_iff]
  · rw [map_lines_of_not_hasBoundary hb]
    simp only [hb, false_imp_iff]

/-- Ended by a carriage return and a newline, the lines of a git text stay the same, empty ones
within a section included. A text without a boundary keeps a second return and an empty line. -/
theorem lines_of_chunks_ended :
    let t := "diff --git a/x b/x\r\n\r\n@@ -1 +1 @@\r\n+a\r\n".toList
    let bare := "@@ -1 +1 @@\n+a\r\r\n\n".toList
    HasBoundary (lines t) ∧ (chunks t).flatMap lines = (pieces t).flatten ∧
      ¬HasBoundary (lines bare) ∧ (chunks bare).map lines = pieces bare := by
  intro t bare
  have hb : HasBoundary (lines t) := (hasBoundary_iff t).1 (by decide)
  have hbare : ¬HasBoundary (lines bare) := fun h => absurd ((hasBoundary_iff bare).2 h) (by decide)
  exact ⟨hb, (lines_of_chunks t).2.2.2.2 fun _ => by decide, hbare, (lines_of_chunks bare).2.1 hbare⟩

/-- In a git text a second carriage return of an addition goes as well, and an empty line that ends
a section is no change. Without the git mark the return stays. -/
theorem exists_lines_tidied_twice :
    (let hunk := "@@ -1 +1 @@\n+a\r\r\n".toList
      let t := "diff --git a/x b/x\n".toList ++ hunk
      ∃ d e, Document.parse t = .ok d ∧ Document.parse hunk = .ok e ∧
        d.files.flatMap FileDiff.changes = [⟨.addition, ['a'], 1⟩] ∧
        e.files.flatMap FileDiff.changes = [⟨.addition, ['a', '\r'], 1⟩] ∧
        (chunks t).flatMap lines ≠ (pieces t).flatten) ∧
    (let t := "diff --git a/x b/x\n@@ -1 +1,2 @@\n+a\n\ndiff --git a/y b/y\n".toList
      ∃ d, Document.parse t = .ok d ∧
        d.files.flatMap FileDiff.changes = [⟨.addition, ['a'], 1⟩] ∧
        [] ∈ (pieces t).flatten ∧ (chunks t).flatMap lines ≠ (pieces t).flatten) := by
  constructor
  · exact ⟨_, _, rfl, rfl, by decide, by decide, by decide⟩
  · exact ⟨_, rfl, by decide, by decide, by decide⟩

end PatchReview.Diff
