import PatchReview.Diff.Lines
import PatchReview.Proofs.Diff.Lines

/-!
Laws of cutting lines into sections. Lines in front of the first opening line lead, a section is
its opening line with the lines up to the next one, and cutting commutes with joining wherever
the second part begins with an opening line.
-/

set_option autoImplicit false

namespace PatchReview.Diff

variable {opens : Text → List Text → Bool}

theorem sectionsBy_cons_of_opens {l : Text} {rest : List Text} (h : opens l rest) :
    sectionsBy opens (l :: rest) =
      ([], (l :: (sectionsBy opens rest).1) :: (sectionsBy opens rest).2) := by
  simp [sectionsBy, h]

theorem sectionsBy_cons_of_not_opens {l : Text} {rest : List Text} (h : opens l rest = false) :
    sectionsBy opens (l :: rest) =
      (l :: (sectionsBy opens rest).1, (sectionsBy opens rest).2) := by
  simp [sectionsBy, h]

theorem sectionsBy_append_of_not_opens {xs : List Text} (ys : List Text)
    (h : ∀ l ∈ xs, ∀ r, opens l r = false) :
    sectionsBy opens (xs ++ ys) = (xs ++ (sectionsBy opens ys).1, (sectionsBy opens ys).2) := by
  induction xs with
  | nil => rfl
  | cons x xs ih =>
    rw [List.cons_append, sectionsBy_cons_of_not_opens (h x List.mem_cons_self _),
      ih fun l hl => h l (List.mem_cons_of_mem x hl)]
    rfl

/-- Lines behind which a section begins are cut as if nothing followed. -/
theorem sectionsBy_append (xs : List Text) {ys : List Text}
    (hctx : ∀ l r, opens l (r ++ ys) = opens l r) (hys : (sectionsBy opens ys).1 = []) :
    sectionsBy opens (xs ++ ys) =
      ((sectionsBy opens xs).1, (sectionsBy opens xs).2 ++ (sectionsBy opens ys).2) := by
  induction xs with
  | nil => exact Prod.ext hys rfl
  | cons x xs ih =>
    -- By `hctx` the line decides as it does without what follows.
    rw [List.cons_append]
    by_cases h : opens x xs
    · rw [sectionsBy_cons_of_opens h, sectionsBy_cons_of_opens (by rw [hctx, h]), ih]
      rfl
    · rw [Bool.not_eq_true] at h
      rw [sectionsBy_cons_of_not_opens h, sectionsBy_cons_of_not_opens (by rw [hctx, h]), ih]

/-- A section: its first line opens it and no line after that opens another. -/
structure IsSection (opens : Text → List Text → Bool) (s : List Text) : Prop where
  alone : sectionsBy opens s = ([], [s])
  context : ∀ l r tail, opens l (r ++ (s ++ tail)) = opens l r

theorem sectionsBy_flatten_of_isSection {ss : List (List Text)}
    (h : ∀ s ∈ ss, IsSection opens s) : sectionsBy opens ss.flatten = ([], ss) := by
  induction ss with
  | nil => rfl
  | cons s ss ih =>
    have hs := (h s List.mem_cons_self).alone
    have hss := ih fun m hm => h m (List.mem_cons_of_mem s hm)
    have hctx : ∀ l r, opens l (r ++ ss.flatten) = opens l r := by
      intro l r
      cases ss with
      | nil => simp
      | cons m ss => exact (h m (by simp)).context l r ss.flatten
    rw [List.flatten_cons, sectionsBy_append s hctx (by rw [hss]), hs, hss]
    rfl

theorem exists_of_mem_sections {s ls : List Text} (h : s ∈ (sectionsBy opens ls).2) :
    ∃ l r, s = l :: (sectionsBy opens r).1 ∧ opens l r := by
  induction ls with
  | nil => simp [sectionsBy] at h
  | cons x xs ih =>
    by_cases hx : opens x xs
    · rw [sectionsBy_cons_of_opens hx, List.mem_cons] at h
      rcases h with rfl | h
      · exact ⟨x, xs, rfl, hx⟩
      · exact ih h
    · rw [sectionsBy_cons_of_not_opens (Bool.not_eq_true _ ▸ hx)] at h
      exact ih h

theorem exists_cons_of_mem_sections {s ls : List Text} (h : s ∈ (sectionsBy opens ls).2) :
    ∃ l rest r, s = l :: rest ∧ opens l r := by
  obtain ⟨l, r, hs, hl⟩ := exists_of_mem_sections h
  exact ⟨l, _, r, hs, hl⟩

theorem chunks_of_cut {t : Text} {before : List Text} {ss : List (List Text)}
    (h : sectionsBy (opensFile ((lines t).any isGitMark)) (lines t) = (before, ss)) :
    chunks t = if ss.isEmpty then if before.any isDiffLine then [t] else []
      else ((if before.any isDiffLine then [before] else []) ++ ss).map Text.unlines := by
  simp only [chunks, h]

section Cut
variable {t : Text} {before : List Text} {ss : List (List Text)}
variable (hcut : sectionsBy (opensFile ((lines t).any isGitMark)) (lines t) = (before, ss))
include hcut

theorem flatten_of_cut : before ++ ss.flatten = lines t := by
  rw [← sectionsBy_flatten (opensFile ((lines t).any isGitMark)) (lines t), hcut]

theorem newline_notMem_of_cut {s : List Text} (hs : s ∈ before :: ss) : ∀ l ∈ s, '\n' ∉ l := by
  intro l hl
  have hmem : l ∈ before ++ ss.flatten := by
    rcases List.mem_cons.1 hs with rfl | hs
    · exact List.mem_append_left _ hl
    · exact List.mem_append_right _ (List.mem_flatten_of_mem hs hl)
  exact newline_notMem_of_mem_lines (flatten_of_cut hcut ▸ hmem)

end Cut

theorem isSection_of_first {p : Text → Bool} {l : Text} {rest : List Text} (hl : p l)
    (hrest : ∀ m ∈ rest, p m = false) : IsSection (fun m _ => p m) (l :: rest) where
  alone := by
    have h : sectionsBy (fun m _ => p m) (rest ++ []) = _ :=
      sectionsBy_append_of_not_opens [] fun m hm _ => hrest m hm
    rw [List.append_nil] at h
    rw [sectionsBy_cons_of_opens hl, h]
    simp [sectionsBy]
  context _ _ _ := rfl

theorem isSection_of_pair {l m : Text} {rest : List Text} (hl : isOldMark l) (hm : isNewMark m)
    (hrest : ∀ x ∈ m :: rest, isOldMark x = false) :
    IsSection (opensFile false) (l :: m :: rest) where
  alone := by
    have hopens : opensFile false l (m :: rest) := by simp [opensFile, opensPair, hl, hm]
    have h : sectionsBy (opensFile false) ((m :: rest) ++ []) = _ :=
      sectionsBy_append_of_not_opens [] fun x hx r => by simp [opensFile, opensPair, hrest x hx]
    rw [List.append_nil] at h
    rw [sectionsBy_cons_of_opens hopens, h]
    simp [sectionsBy]
  context x r tail := by
    -- Only a line right in front of the section sees into it, and what it sees is no partner.
    have hn : isNewMark l = false :=
      eq_false_of_head? head?_of_isNewMark (head?_of_isOldMark hl) (by decide)
    cases r <;> simp [opensFile, opensPair, hn]

end PatchReview.Diff
