import PatchReview.Proofs.Diff.Boundaries

set_option autoImplicit false

namespace PatchReview.Diff

/-- A section starts at this place: at a git mark, or in a text without git marks at an old path
mark with a new one right below it. -/
def startsAt (git : Bool) (ls : List Text) (i : Nat) : Bool :=
  if git then ls[i]?.any isGitMark else ls[i]?.any isOldMark && ls[i + 1]?.any isNewMark

variable {git : Bool}

@[simp] theorem startsAt_nil (i : Nat) : startsAt git [] i = false := by
  cases git <;> rfl

@[simp] theorem startsAt_cons_zero (l : Text) (rest : List Text) :
    startsAt git (l :: rest) 0 = opensFile git l rest := by
  simp [startsAt, opensFile, opensPair, List.head?_eq_getElem?]

@[simp] theorem startsAt_cons_succ (l : Text) (rest : List Text) (i : Nat) :
    startsAt git (l :: rest) (i + 1) = startsAt git rest i := by
  simp [startsAt]

section Before
variable (ls : List Text)

/-- Nothing that stands further down makes a line open a section no more. -/
theorem opensFile_append {l : Text} {r : List Text} (h : opensFile git l r) (tail : List Text) :
    opensFile git l (r ++ tail) := by
  cases git with
  | true => exact h
  | false =>
    cases r with
    | nil => simp [opensFile, opensPair] at h
    | cons m r => exact h

theorem opensFile_before {l : Text} {r : List Text} (h : opensFile git l r) :
    opensFile git l (sectionsBy (opensFile git) r).1 := by
  cases git with
  | true => exact h
  | false =>
    cases r with
    | nil => simp [opensFile, opensPair] at h
    | cons m r =>
      simp only [opensFile, opensPair, Bool.false_eq_true, if_false, List.head?_cons,
        Option.any_some, Bool.and_eq_true] at h
      have hold : isOldMark m = false :=
        eq_false_of_head? head?_of_isOldMark (head?_of_isNewMark h.2) (by decide)
      have hm : opensFile false m r = false := by simp [opensFile, opensPair, hold]
      rw [sectionsBy_cons_of_not_opens hm]
      simp [opensFile, opensPair, h.1, h.2]

theorem startsAt_before (i : Nat) :
    startsAt git (sectionsBy (opensFile git) ls).1 i = false := by
  induction ls generalizing i with
  | nil => simp [sectionsBy]
  | cons l rest ih =>
    by_cases hl : opensFile git l rest
    · simp [sectionsBy_cons_of_opens hl]
    · rw [Bool.not_eq_true] at hl
      rw [sectionsBy_cons_of_not_opens hl]
      cases i with
      | zero =>
        rw [startsAt_cons_zero, ← Bool.not_eq_true]
        intro h
        have happ := opensFile_append h (sectionsBy (opensFile git) rest).2.flatten
        rw [sectionsBy_flatten, hl] at happ
        exact Bool.false_ne_true happ
      | succ i => rw [startsAt_cons_succ, ih]

theorem startsAt_of_lt {i : Nat} (h : i < (sectionsBy (opensFile git) ls).1.length) :
    startsAt git ls i = false := by
  induction ls generalizing i with
  | nil => exact startsAt_nil i
  | cons l rest ih =>
    by_cases hl : opensFile git l rest
    · simp [sectionsBy_cons_of_opens hl] at h
    · rw [Bool.not_eq_true] at hl
      rw [sectionsBy_cons_of_not_opens hl] at h
      cases i with
      | zero => rw [startsAt_cons_zero, hl]
      | succ i => rw [startsAt_cons_succ, ih (Nat.lt_of_succ_lt_succ h)]

theorem startsAt_length (h : (sectionsBy (opensFile git) ls).2 ≠ []) :
    startsAt git ls (sectionsBy (opensFile git) ls).1.length := by
  induction ls with
  | nil => simp [sectionsBy] at h
  | cons l rest ih =>
    by_cases hl : opensFile git l rest
    · rw [sectionsBy_cons_of_opens hl]
      simpa using hl
    · rw [sectionsBy_cons_of_not_opens (Bool.not_eq_true _ ▸ hl)] at h ⊢
      rw [List.length_cons, startsAt_cons_succ]
      exact ih h

end Before

theorem startsAt_of_mem_sections {s ls : List Text} (h : s ∈ (sectionsBy (opensFile git) ls).2)
    (i : Nat) : startsAt git s i ↔ i = 0 := by
  obtain ⟨l, r, rfl, hl⟩ := exists_of_mem_sections h
  cases i with
  | zero => simpa using opensFile_before hl
  | succ i => simp [startsAt_before]

/-- The lines of each chunk, as the cut of the text gives them. -/
def pieces (t : Text) : List (List Text) :=
  let (before, sections) := sectionsBy (opensFile ((lines t).any isGitMark)) (lines t)
  (if before.any isDiffLine then [before] else []) ++ sections

theorem pieces_of_cut {t : Text} {before : List Text} {ss : List (List Text)}
    (h : sectionsBy (opensFile ((lines t).any isGitMark)) (lines t) = (before, ss)) :
    pieces t = (if before.any isDiffLine then [before] else []) ++ ss := by
  simp only [pieces, h]

theorem pieces_of_not_hasBoundary {t : Text} (h : ¬HasBoundary (lines t)) :
    pieces t = if (lines t).any isDiffLine then [lines t] else [] := by
  rcases hcut : sectionsBy (opensFile ((lines t).any isGitMark)) (lines t) with ⟨before, ss⟩
  have hss : ss = [] := by
    by_contra hne
    exact h ((hasBoundary_iff t).1 (by rwa [hcut]))
  have hflat := flatten_of_cut hcut
  rw [hss, List.flatten_nil, List.append_nil] at hflat
  rw [pieces_of_cut hcut, hss, List.append_nil, hflat]

theorem chunks_of_hasBoundary {t : Text} (h : HasBoundary (lines t)) :
    chunks t = (pieces t).map Text.unlines := by
  have hne := (hasBoundary_iff t).2 h
  rw [chunks_of_cut rfl, if_neg (by simpa using hne)]
  rfl

theorem of_mem_pieces {t : Text} {s : List Text} (h : s ∈ pieces t) :
    s ≠ [] ∧ ∀ l ∈ s, '\n' ∉ l := by
  rcases hcut : sectionsBy (opensFile ((lines t).any isGitMark)) (lines t) with ⟨before, ss⟩
  rw [pieces_of_cut hcut, List.mem_append] at h
  rcases h with h | h
  · by_cases hlead : before.any isDiffLine
    · obtain rfl : s = before := by simpa [hlead] using h
      refine ⟨?_, newline_notMem_of_cut hcut List.mem_cons_self⟩
      rintro rfl
      simp at hlead
    · simp [hlead] at h
  · refine ⟨?_, newline_notMem_of_cut hcut (List.mem_cons_of_mem before h)⟩
    obtain ⟨l, rest, _, rfl, -⟩ :=
      exists_cons_of_mem_sections (show s ∈ (sectionsBy _ _).2 by rw [hcut]; exact h)
    exact List.cons_ne_nil l rest

theorem lines_unlines_of_mem_pieces {t : Text} {s : List Text} (h : s ∈ pieces t) :
    Text.lines (Text.unlines s) = s :=
  Text.lines_unlines (of_mem_pieces h).1 (of_mem_pieces h).2

theorem map_lines_chunks {t : Text} (h : HasBoundary (lines t)) :
    (chunks t).map Text.lines = pieces t := by
  rw [chunks_of_hasBoundary h, List.map_map]
  exact (List.map_congr_left (g := id) fun _ => lines_unlines_of_mem_pieces).trans (List.map_id _)

section Cut
variable {t : Text} {before : List Text} {ss : List (List Text)}
variable (hcut : sectionsBy (opensFile ((lines t).any isGitMark)) (lines t) = (before, ss))
include hcut

theorem startsAt_length_of_cut (h : HasBoundary (lines t)) :
    startsAt ((lines t).any isGitMark) (lines t) before.length := by
  simpa [hcut] using startsAt_length (lines t) ((hasBoundary_iff t).2 h)

theorem startsAt_of_lt_of_cut {i : Nat} (h : i < before.length) :
    startsAt ((lines t).any isGitMark) (lines t) i = false :=
  startsAt_of_lt (lines t) (by rwa [hcut])

theorem chunks_eq_lead_append (h : HasBoundary (lines t)) :
    chunks t =
      (if before.any isDiffLine then [Text.unlines before] else []) ++ ss.map Text.unlines := by
  rw [chunks_of_hasBoundary h, pieces_of_cut hcut, List.map_append]
  split <;> rfl

theorem flatMap_lines_chunks (h : HasBoundary (lines t)) :
    (chunks t).flatMap Text.lines = if before.any isDiffLine then lines t else ss.flatten := by
  rw [List.flatMap_def, map_lines_chunks h, pieces_of_cut hcut]
  by_cases hlead : before.any isDiffLine <;> simp [hlead, flatten_of_cut hcut]

theorem startsAt_lead {c : Text}
    (hc : c ∈ if before.any isDiffLine then [Text.unlines before] else []) (i : Nat) :
    startsAt ((lines t).any isGitMark) (Text.lines c) i = false := by
  by_cases hlead : before.any isDiffLine
  · obtain rfl : c = Text.unlines before := by simpa [hlead] using hc
    rw [lines_unlines_of_mem_pieces (t := t) (by simp [pieces_of_cut hcut, hlead])]
    have h := @startsAt_before ((lines t).any isGitMark) (lines t) i
    rwa [hcut] at h
  · simp [hlead] at hc

theorem startsAt_section {c : Text} (hc : c ∈ ss.map Text.unlines) (i : Nat) :
    startsAt ((lines t).any isGitMark) (Text.lines c) i ↔ i = 0 := by
  obtain ⟨s, hs, rfl⟩ := List.mem_map.1 hc
  have hmem : s ∈ (sectionsBy (opensFile ((lines t).any isGitMark)) (lines t)).2 := by rwa [hcut]
  rw [lines_unlines_of_mem_pieces (t := t) (by simp [pieces_of_cut hcut, hs])]
  exact startsAt_of_mem_sections hmem i

end Cut

/-- The chunks hold the lines of the text in order, from its first line or from the first section
on, the former exactly if a line above that section shows a change. A section starts at the head
of every chunk but one that leads, and nowhere else in a chunk. A text in which none starts is one
chunk as it is, and no chunk if none of its lines shows a change. -/
theorem chunks_partition_lines (t : Text) :
    let ls := lines t
    let git := ls.any isGitMark
    (HasBoundary ls → ∃ k lead sections,
      startsAt git ls k ∧ (∀ i < k, startsAt git ls i = false) ∧
      chunks t = lead ++ sections ∧
      lead = (if (ls.take k).any isDiffLine then [Text.unlines (ls.take k)] else []) ∧
      (chunks t).flatMap Text.lines = (if (ls.take k).any isDiffLine then ls else ls.drop k) ∧
      (∀ c ∈ lead, ∀ i, startsAt git (Text.lines c) i = false) ∧
      ∀ c ∈ sections, ∀ i, startsAt git (Text.lines c) i ↔ i = 0) ∧
    (¬HasBoundary ls →
      (chunks t = [t] ∨ chunks t = []) ∧ (chunks t = [] ↔ ∀ l ∈ ls, isDiffLine l = false)) := by
  intro ls git
  constructor
  · intro hb
    rcases hcut : sectionsBy (opensFile git) ls with ⟨before, ss⟩
    have hflat : before ++ ss.flatten = ls := flatten_of_cut hcut
    have htake : ls.take before.length = before := by rw [← hflat, List.take_left]
    have hdrop : ls.drop before.length = ss.flatten := by rw [← hflat, List.drop_left]
    refine ⟨before.length, _, ss.map Text.unlines, startsAt_length_of_cut hcut hb,
      fun i hi => startsAt_of_lt_of_cut hcut hi, ?_, rfl, ?_, ?_, fun c => startsAt_section hcut⟩
    · rw [htake]
      exact chunks_eq_lead_append hcut hb
    · rw [htake, hdrop]
      exact flatMap_lines_chunks hcut hb
    · rw [htake]
      exact fun c => startsAt_lead hcut
  · intro hb
    rw [chunks_of_not_hasBoundary hb]
    by_cases hd : (lines t).any isDiffLine
    · obtain ⟨l, hl, hshows⟩ := List.any_eq_true.1 hd
      refine ⟨.inl (if_pos hd), iff_of_false (by simp [hd]) fun h => ?_⟩
      exact Bool.false_ne_true ((h l hl).symm.trans hshows)
    · exact ⟨.inr (if_neg hd), iff_of_true (if_neg hd) (not_isDiffLine_of_not_any hd)⟩

/-- Plain sections behind a change: an old path mark right above another one, and one that is the
last line of a section, start nothing. -/
theorem chunks_partition_lines_plain :
    let t := "+x\r\n--- \n--- a\n+++ b\n@@ -1 +1 @@\n-x\n--- \n--- c\n+++ d\n".toList
    HasBoundary (lines t) ∧ (chunks t).length = 3 ∧ (chunks t).flatMap Text.lines = lines t ∧
      ∀ c ∈ chunks t, ∀ i, startsAt false (Text.lines c) i → i = 0 := by
  intro t
  have hb : HasBoundary (lines t) := (hasBoundary_iff t).1 (by decide)
  obtain ⟨k, lead, sections, hk, hfirst, hchunks, -, hlines, hlead, hsections⟩ :=
    (chunks_partition_lines t).1 hb
  have hsecond : k = 2 := by
    have hearly : ∀ j < 2, startsAt ((lines t).any isGitMark) (lines t) j = false := by decide
    rcases Nat.lt_trichotomy k 2 with hlt | heq | hgt
    · exact absurd ((hearly k hlt).symm.trans hk) Bool.false_ne_true
    · exact heq
    · exact absurd (hfirst 2 hgt) (by decide)
  rw [hsecond, if_pos (by decide)] at hlines
  refine ⟨hb, by decide, hlines, fun c hc i hi => ?_⟩
  rw [hchunks, List.mem_append] at hc
  rcases hc with hc | hc
  · exact absurd ((hlead c hc i).symm.trans hi) Bool.false_ne_true
  · exact (hsections c hc i).1 hi

end PatchReview.Diff
