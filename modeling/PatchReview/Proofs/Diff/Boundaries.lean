import PatchReview.Diff.FileDiff
import PatchReview.Proofs.Diff.Sections
import PatchReview.Proofs.Fallible

set_option autoImplicit false

namespace PatchReview.Diff

/-- A git mark, or two path marks that stand together. -/
def HasBoundary (ls : List Text) : Prop :=
  (∃ l ∈ ls, isGitMark l) ∨ ∃ l m, [l, m] <:+: ls ∧ isOldMark l ∧ isNewMark m

theorem HasBoundary.of_infix {ls ms : List Text} (hin : ls <:+: ms) (h : HasBoundary ls) :
    HasBoundary ms := by
  rcases h with ⟨l, hl, hg⟩ | ⟨l, m, hlm, hold, hnew⟩
  · exact .inl ⟨l, hin.mem hl, hg⟩
  · exact .inr ⟨l, m, hlm.trans hin, hold, hnew⟩

theorem sections_ne_nil_iff {opens : Text → List Text → Bool} {ls : List Text} :
    (sectionsBy opens ls).2 ≠ [] ↔ ∃ l rest, l :: rest <:+ ls ∧ opens l rest := by
  induction ls with
  | nil => simp [sectionsBy]
  | cons x xs ih =>
    by_cases hx : opens x xs
    · exact iff_of_true (by simp [sectionsBy_cons_of_opens hx]) ⟨x, xs, List.suffix_rfl, hx⟩
    · rw [sectionsBy_cons_of_not_opens (Bool.not_eq_true _ ▸ hx), ih]
      constructor
      · intro h
        obtain ⟨l, rest, hsuf, hl⟩ := h
        exact ⟨l, rest, hsuf.trans (List.suffix_cons x xs), hl⟩
      · intro h
        obtain ⟨l, rest, hsuf, hl⟩ := h
        rcases List.suffix_cons_iff.1 hsuf with heq | hsuf
        · obtain ⟨rfl, rfl⟩ := List.cons.inj heq
          exact absurd hl hx
        · exact ⟨l, rest, hsuf, hl⟩

theorem exists_opensPair_iff {ls : List Text} :
    (∃ l rest, l :: rest <:+ ls ∧ opensPair l rest) ↔
      ∃ l m, [l, m] <:+: ls ∧ isOldMark l ∧ isNewMark m := by
  simp only [opensPair, Bool.and_eq_true]
  constructor
  · intro h
    obtain ⟨l, rest, hsuf, hold, hnew⟩ := h
    cases rest with
    | nil => simp at hnew
    | cons m rest =>
      have hin : [l, m] <+: l :: m :: rest := ⟨rest, rfl⟩
      exact ⟨l, m, hin.isInfix.trans hsuf.isInfix, hold, by simpa using hnew⟩
  · intro h
    obtain ⟨l, m, ⟨a, b, hab⟩, hold, hnew⟩ := h
    exact ⟨l, m :: b, ⟨a, by simpa using hab⟩, hold, by simpa using hnew⟩

theorem exists_opensFile_iff (ls : List Text) :
    (∃ l rest, l :: rest <:+ ls ∧ opensFile (ls.any isGitMark) l rest) ↔ HasBoundary ls := by
  unfold HasBoundary
  by_cases hgit : ls.any isGitMark
  · obtain ⟨l, hl, hg⟩ := List.any_eq_true.1 hgit
    obtain ⟨a, b, hab⟩ := List.append_of_mem hl
    exact iff_of_true ⟨l, b, ⟨a, hab.symm⟩, by simp [opensFile, hgit, hg]⟩ (.inl ⟨l, hl, hg⟩)
  · have hnone : ¬∃ l ∈ ls, isGitMark l := by simpa using hgit
    rw [Bool.not_eq_true] at hgit
    simp only [hgit, opensFile, Bool.false_eq_true, if_false, hnone, false_or]
    exact exists_opensPair_iff

instance : DecidablePred HasBoundary := fun ls =>
  decidable_of_iff _ (sections_ne_nil_iff.trans (exists_opensFile_iff ls))

theorem hasBoundary_iff (t : Text) :
    (sectionsBy (opensFile ((lines t).any isGitMark)) (lines t)).2 ≠ [] ↔ HasBoundary (lines t) :=
  sections_ne_nil_iff.trans (exists_opensFile_iff (lines t))

/-- Where a text has a boundary, its chunks are made of its lines alone. -/
theorem chunks_congr {t t' : Text} (h : lines t = lines t') (hb : HasBoundary (lines t)) :
    chunks t = chunks t' := by
  have hne := (hasBoundary_iff t).2 hb
  rw [chunks_of_cut rfl, chunks_of_cut rfl, ← h]
  simp [hne]

theorem chunks_of_not_hasBoundary {t : Text} (h : ¬HasBoundary (lines t)) :
    chunks t = if (lines t).any isDiffLine then [t] else [] := by
  rw [← hasBoundary_iff, ne_eq, not_not] at h
  have hflat := sectionsBy_flatten (opensFile ((lines t).any isGitMark)) (lines t)
  rw [h, List.flatten_nil, List.append_nil] at hflat
  rw [chunks_of_cut rfl, h, hflat]
  rfl

namespace Identity

theorem paths_readLines {ls : List Text} {prev : Option Text} (id : Identity)
    (h : ¬HasBoundary (prev.toList ++ ls)) :
    (readLines id prev ls).oldPath = id.oldPath ∧ (readLines id prev ls).newPath = id.newPath := by
  induction ls generalizing id prev with
  | nil => exact ⟨rfl, rfl⟩
  | cons line rest ih =>
    have hrest : ¬HasBoundary ((some line).toList ++ rest) :=
      fun hb => h (hb.of_infix (List.suffix_append prev.toList (line :: rest)).isInfix)
    have hgit : ¬isGitMark line := fun hg => h (.inl ⟨line, by simp, hg⟩)
    have hnext : isOldMark line → rest.head?.any isNewMark = false := by
      intro hold
      cases rest with
      | nil => rfl
      | cons m rest =>
        have hin : [line, m] <:+: prev.toList ++ line :: m :: rest := ⟨prev.toList, rest, by simp⟩
        simpa using fun hnew => h (.inr ⟨line, m, hin, hold, hnew⟩)
    have hprev : isNewMark line → prev.any isOldMark = false := by
      intro hnew
      cases prev with
      | none => rfl
      | some l =>
        have hin : [l, line] <:+: (some l).toList ++ line :: rest := ⟨[], rest, rfl⟩
        simpa using fun hold => h (.inr ⟨l, line, hin, hold, hnew⟩)
    have hline : (readLine prev line rest.head? id).oldPath = id.oldPath ∧
        (readLine prev line rest.head? id).newPath = id.newPath := by
      unfold readLine
      split_ifs <;> simp_all
    rw [readLines, (ih _ hrest).1, (ih _ hrest).2]
    exact hline

theorem readBody_of_not_hasBoundary {ls : List Text} (h : ¬HasBoundary ls) (id : Identity) :
    id.readBody ls = id :=
  readBody_of_not_isGitMark (fun l hl => by simpa using fun hg => h (.inl ⟨l, hl, hg⟩)) id

end Identity

namespace FileDiff

theorem not_hasBoundary_header {ls : List Text} (h : ¬HasBoundary ls) :
    ¬HasBoundary (ls.takeWhile (!isDiffLine ·)) :=
  fun hb => h (hb.of_infix (List.takeWhile_prefix _).isInfix)

theorem not_hasBoundary_body {ls : List Text} (h : ¬HasBoundary ls) :
    ¬HasBoundary (ls.dropWhile (!isDiffLine ·)) :=
  fun hb => h (hb.of_infix (List.dropWhile_suffix _).isInfix)

theorem paths_of_not_hasBoundary {text : Text} {ls : List Text} {f : FileDiff}
    (h : ¬HasBoundary ls) (hf : ofLines text ls = .ok f) :
    f.identity.oldPath = none ∧ f.identity.newPath = none := by
  obtain ⟨hunks, -, hf⟩ := bind_eq_ok.1 hf
  cases hf
  simp only [Identity.readBody_of_not_hasBoundary (not_hasBoundary_body h)]
  exact @Identity.paths_readLines _ none {} (not_hasBoundary_header h)

def withText (f : FileDiff) (text : Text) : FileDiff := { f with text := text }

theorem ofLines_eq_map (text : Text) (ls : List Text) :
    ofLines text ls = (ofLines [] ls).map (·.withText text) := by
  simp only [ofLines]
  cases Hunk.ofBody (ls.dropWhile (!isDiffLine ·)) <;> rfl

end FileDiff

theorem Document.parse_of_not_hasBoundary {t : Text} (h : ¬HasBoundary (lines t)) :
    Document.parse t = if (lines t).any isDiffLine then
      (FileDiff.ofLines [] (lines t)).map fun f => ⟨[f.withText t]⟩ else .ok ⟨[]⟩ := by
  unfold Document.parse
  rw [chunks_of_not_hasBoundary h]
  split
  · rw [List.mapM_cons, FileDiff.ofChunk, FileDiff.ofLines_eq_map]
    cases FileDiff.ofLines [] (lines t) <;> rfl
  · rfl

end PatchReview.Diff
