import Mathlib
import PatchReview.Diff.FileDiff
import PatchReview.Proofs.Diff.Sections
import PatchReview.Proofs.Fallible

set_option autoImplicit false

namespace PatchReview.Diff

structure Shows (k : ChangeKind) (p : Text → Bool) : Prop where
  nil : p [] = false
  dropReturn : ∀ l, p (dropReturn l) = p l
  diffLine : ∀ l, p l → isDiffLine l
  hunkMark : ∀ l, isHunkMark l → p l = false
  kind : ∀ l, ((Edit.ofLine l).kind == k) = p l

theorem shows_addition : Shows .addition isAddition where
  nil := rfl
  dropReturn := isAddition_dropReturn
  diffLine l h := by simp [isDiffLine, h]
  hunkMark _ h := eq_false_of_head? head?_of_isAddition (head?_of_isHunkMark h) (by decide)
  kind l := by
    rw [Edit.ofLine]
    split
    · simp_all
    · split
      · simp_all
      · split <;> simp_all

theorem shows_deletion : Shows .deletion isDeletion where
  nil := rfl
  dropReturn := isDeletion_dropReturn
  diffLine l h := by simp [isDiffLine, h]
  hunkMark _ h := eq_false_of_head? head?_of_isDeletion (head?_of_isHunkMark h) (by decide)
  kind l := by
    rw [Edit.ofLine]
    split
    case isTrue ha =>
      have hd : isDeletion l = false :=
        eq_false_of_head? head?_of_isDeletion (head?_of_isAddition ha) (by decide)
      simp [hd]
    case isFalse =>
      split
      · simp_all
      · split <;> simp_all

namespace Shows
variable {k : ChangeKind} {p : Text → Bool}

theorem of_not_isDiffLine (h : Shows k p) {l : Text} (hl : isDiffLine l = false) : p l = false := by
  by_contra hp
  simp [h.diffLine l (Bool.not_eq_false _ ▸ hp)] at hl

theorem gitMark (h : Shows k p) {l : Text} (hl : isGitMark l) : p l = false :=
  h.of_not_isDiffLine (isDiffLine_of_isGitMark hl)

theorem countP_of_any_isDiffLine (h : Shows k p) {ls : List Text}
    (hls : ls.any isDiffLine = false) : ls.countP p = 0 := by
  rw [List.any_eq_false] at hls
  rw [List.countP_eq_zero]
  intro l hl
  simp [h.of_not_isDiffLine (Bool.not_eq_true _ ▸ hls l hl)]

end Shows

theorem countP_numbered (q : ChangeKind → Bool) (next : Nat) (edits : List Edit) :
    (numbered next edits).countP (fun c => q c.kind) = edits.countP (fun e => q e.kind) := by
  induction edits generalizing next with
  | nil => rfl
  | cons e edits ih => simp [numbered, List.countP_cons, ih]

def Hunk.count (k : ChangeKind) (h : Hunk) : Nat := h.changes.countP (·.kind == k)

def FileDiff.count (k : ChangeKind) (f : FileDiff) : Nat := (f.hunks.map (Hunk.count k)).sum

theorem Hunk.length_additions (h : Hunk) : h.additions.length = h.count .addition :=
  List.countP_eq_length_filter.symm

theorem Hunk.length_deletions (h : Hunk) : h.deletions.length = h.count .deletion :=
  List.countP_eq_length_filter.symm

theorem FileDiff.additionCount_eq (f : FileDiff) : f.additionCount = f.count .addition := by
  simp only [additionCount, Hunk.length_additions]
  rfl

theorem FileDiff.deletionCount_eq (f : FileDiff) : f.deletionCount = f.count .deletion := by
  simp only [deletionCount, Hunk.length_deletions]
  rfl

section
variable {k : ChangeKind} {p : Text → Bool} (hp : Shows k p)
include hp

theorem Hunk.count_ofLines (header : HunkHeader) (content : List Text) :
    (Hunk.ofLines header content).count k = content.countP p := by
  have hk : ((· == k) ∘ fun l => (Edit.ofLine l).kind) = p := funext hp.kind
  rw [Hunk.count, Hunk.ofLines, countP_numbered (· == k), List.countP_map]
  exact congrArg (content.countP ·) hk

theorem Hunk.count_ofSection {l : Text} {content : List Text} {h : Hunk} (hl : isHunkMark l)
    (hs : Hunk.ofSection (l :: content) = .ok h) : h.count k = (l :: content).countP p := by
  obtain ⟨header, -, hh⟩ := bind_eq_ok.1 hs
  cases hh
  rw [Hunk.count_ofLines hp, List.countP_cons_of_neg (by simp [hp.hunkMark l hl])]

theorem Hunk.count_bare (bare : List Text) :
    ((if bare.isEmpty then [] else [Hunk.ofLines (.placeholder []) bare]).map
      (Hunk.count k)).sum = bare.countP p := by
  cases bare with
  | nil => rfl
  | cons l bare => simp [Hunk.count_ofLines hp]

theorem countP_filter_not_isGitMark (ls : List Text) :
    (ls.filter (!isGitMark ·)).countP p = ls.countP p := by
  rw [List.countP_filter]
  refine List.countP_congr fun l _ => ?_
  by_cases hg : isGitMark l <;> simp [hg, hp.gitMark]

theorem Hunk.sum_count_ofBody {body : List Text} {hs : List Hunk}
    (h : Hunk.ofBody body = .ok hs) : (hs.map (Hunk.count k)).sum = body.countP p := by
  have hflat := sectionsBy_flatten (fun line _ => isHunkMark line) (body.filter (!isGitMark ·))
  rw [← countP_filter_not_isGitMark hp, ← hflat]
  obtain ⟨hunks, hm, he⟩ := bind_eq_ok.1 h
  cases he
  have hheaded : hunks.map (Hunk.count k) = _ := map_eq_of_mapM (w := List.countP p) hm
    fun s hs b hb => by
      obtain ⟨l, rest, _, rfl, hl⟩ := exists_cons_of_mem_sections hs
      exact Hunk.count_ofSection hp hl hb
  rw [List.map_append, List.sum_append, hheaded, Hunk.count_bare hp, List.countP_append,
    List.countP_flatten]

theorem FileDiff.count_ofLines {text : Text} {ls : List Text} {f : FileDiff}
    (h : FileDiff.ofLines text ls = .ok f) : f.count k = ls.countP p := by
  obtain ⟨hunks, hb, he⟩ := bind_eq_ok.1 h
  cases he
  have hhead : (ls.takeWhile (!isDiffLine ·)).countP p = 0 := by
    rw [List.countP_eq_zero]
    intro l hl
    simp [hp.of_not_isDiffLine (not_isDiffLine_of_mem_header hl)]
  have hcut : (ls.dropWhile (!isDiffLine ·)).countP p = ls.countP p := by
    conv => rhs; rw [← List.takeWhile_append_dropWhile (p := (!isDiffLine ·)) (l := ls)]
    rw [List.countP_append, hhead, Nat.zero_add]
  rw [FileDiff.count, Hunk.sum_count_ofBody hp hb, hcut]

/-- What the cut into files drops shows no change, and joining the kept lines keeps their kinds. -/
theorem sum_countP_chunks (t : Text) :
    ((chunks t).map fun c => (lines c).countP p).sum = (lines t).countP p := by
  rcases hcut : sectionsBy (opensFile ((lines t).any isGitMark)) (lines t) with ⟨before, ss⟩
  have hflat : before ++ ss.flatten = lines t := flatten_of_cut hcut
  have hjoin : ∀ s ∈ before :: ss, (lines (Text.unlines s)).countP p = s.countP p :=
    fun s hs => countP_lines_unlines hp.nil hp.dropReturn (newline_notMem_of_cut hcut hs)
  have hss : ((ss.map Text.unlines).map fun c => (lines c).countP p).sum = ss.flatten.countP p := by
    rw [List.countP_flatten, List.map_map]
    exact congrArg List.sum (List.map_congr_left fun s hs => hjoin s (List.mem_cons_of_mem _ hs))
  rw [chunks_of_cut hcut, ← hflat, List.countP_append, ← hss]
  by_cases hlead : before.any isDiffLine
  · cases ss with
    | nil =>
      -- Without a section the text itself is the one chunk.
      have hb : before = lines t := by simpa using hflat
      simp [hlead, ← hb]
    | cons s ss => simp [hlead, hjoin before List.mem_cons_self]
  · have hzero := hp.countP_of_any_isDiffLine (Bool.not_eq_true _ ▸ hlead)
    cases ss with
    | nil => simp [hlead, hzero]
    | cons s ss => simp [hlead, hzero]

theorem Document.sum_count {t : Text} {d : Document} (h : Document.parse t = .ok d) :
    (d.files.map (FileDiff.count k)).sum = (Text.lines t).countP p := by
  obtain ⟨files, hm, he⟩ := bind_eq_ok.1 h
  cases he
  have hfiles : files.map (FileDiff.count k) = (chunks t).map fun c => (lines c).countP p :=
    map_eq_of_mapM hm fun c _ f hf => FileDiff.count_ofLines hp hf
  rw [hfiles, sum_countP_chunks hp, countP_lines hp.nil hp.dropReturn]

end

/-- Whatever the text is, the counts of its document are those of its lines. -/
theorem Document.counts_of_parse {t : Text} {d : Document} (h : Document.parse t = .ok d) :
    d.additionCount = (Text.lines t).countP isAddition ∧
      d.deletionCount = (Text.lines t).countP isDeletion := by
  simp only [Document.additionCount, FileDiff.additionCount_eq, Document.deletionCount,
    FileDiff.deletionCount_eq]
  exact ⟨Document.sum_count shows_addition h, Document.sum_count shows_deletion h⟩

/-- A change above the files, a header of another form, and lines that look like path marks. -/
theorem Document.counts_of_parse_mixed :
    let t := "note\n+a\n--- x\n+++ y\n@@ one @@\n-b\n--- c\n+\r".toList
    ∃ d, Document.parse t = .ok d ∧ d.additionCount = 2 ∧ d.deletionCount = 1 := by
  intro t
  obtain ⟨d, hd⟩ : ∃ d, Document.parse t = .ok d := ⟨_, rfl⟩
  have h := Document.counts_of_parse hd
  exact ⟨d, hd, h.1.trans (by decide), h.2.trans (by decide)⟩

end PatchReview.Diff
