import PatchReview.Proofs.Diff.Boundaries
import PatchReview.Proofs.Diff.Composition
import PatchReview.Proofs.Diff.Identity
import PatchReview.Proofs.Diff.RoundTrip
import PatchReview.Proofs.Text.Words

set_option autoImplicit false

namespace PatchReview.Diff

open Text (IsSolid words)

structure TrimmedPath extends PathName where
  head : text.head?.any (!isBlank ·)

namespace TrimmedPath

theorem ne_nil (p : TrimmedPath) : p.text ≠ [] := fun he => by simpa [he] using p.head

def gitLine (p q : TrimmedPath) : Text := Diff.gitLine (some p.toPathName) (some q.toPathName)

def renameLines (p q : TrimmedPath) : List Text :=
  [gitLine p q, "similarity index 100%".toList, "rename from ".toList ++ p.text,
    "rename to ".toList ++ q.text]

/-- The first words of both sides, but where the first side has a blank its second word stands for
the second side. -/
def read (p q : TrimmedPath) : Option Text × Option Text :=
  ((words p.text).head?, ((words p.text)[1]?.map readPath).getD (words q.text).head?)

def renamed (p q : TrimmedPath) (text : Text) : FileDiff where
  identity := { oldPath := (p.read q).1, newPath := (p.read q).2, isRenamed := true }
  hunks := []
  text := text

end TrimmedPath

open TrimmedPath (renameLines)

section Words
variable (p q : TrimmedPath)

theorem words_side {side : Char} (hs : side = 'a' ∨ side = 'b') :
    ∃ w ws, words p.text = w :: ws ∧
      words (sided side (some p.toPathName)) = (side :: '/' :: w) :: ws := by
  have hsolid : IsSolid [side, '/'] := by rcases hs with rfl | rfl <;> decide
  have hside := Text.words_append_of_isSolid hsolid p.head
  simp only [List.cons_append, List.nil_append] at hside
  exact ⟨_, _, Text.words_of_head p.head, hside⟩

theorem words_gitLine :
    words (p.gitLine q) = "diff".toList :: "--git".toList ::
      (words (sided 'a' (some p.toPathName)) ++ words (sided 'b' (some q.toPathName))) := by
  have hspace : isBlank ' ' := by decide
  have hdiff : words "diff".toList = ["diff".toList] := by decide
  have hgit : words "--git".toList = ["--git".toList] := by decide
  have hmark : ∀ t, "diff --git ".toList ++ t =
      "diff".toList ++ ' ' :: ("--git".toList ++ ' ' :: t) := fun _ => rfl
  have hline : p.gitLine q = "diff".toList ++ ' ' :: ("--git".toList ++ ' ' ::
      (sided 'a' (some p.toPathName) ++ ' ' :: sided 'b' (some q.toPathName))) :=
    (List.append_assoc _ _ _).trans (hmark _)
  rw [hline, Text.words_append_blank hspace, hdiff, Text.words_append_blank hspace, hgit,
    Text.words_append_blank hspace]
  rfl

theorem readPath_word {side : Char} (hs : side = 'a' ∨ side = 'b') {w : Text} (hw : IsSolid w) :
    readPath (side :: '/' :: w) = some w := by
  have hsolid : IsSolid (side :: '/' :: w) :=
    IsSolid.append (v := [side, '/']) (by rcases hs with rfl | rfl <;> decide) hw
  have htab : '\t' ∉ side :: '/' :: w := fun h => absurd (hsolid _ h) (by decide)
  have hlast : (side :: '/' :: w).getLast?.all (!isBlank ·) := by
    cases hl : (side :: '/' :: w).getLast? with
    | none => rfl
    | some c => simp [hsolid c (List.mem_of_getLast? hl)]
  rw [readPath, Text.before_of_notMem htab,
    Text.trim_eq_self (by simp [hsolid side List.mem_cons_self]) hlast]
  rcases hs with rfl | rfl <;> rfl

theorem readGitMark_gitLine (id : Identity) :
    Identity.readGitMark (p.gitLine q) id =
      { id with oldPath := (p.read q).1, newPath := (p.read q).2 } := by
  obtain ⟨w, ws, hp, ha⟩ := words_side p (.inl rfl)
  obtain ⟨v, vs, hq, hb⟩ := words_side q (.inr rfl)
  have hw : IsSolid w := Text.isSolid_of_mem_words (hp ▸ List.mem_cons_self)
  have hv : IsSolid v := Text.isSolid_of_mem_words (hq ▸ List.mem_cons_self)
  rw [Identity.readGitMark, words_gitLine, ha, hb, TrimmedPath.read, hp, hq]
  cases ws with
  | nil => simp [readPath_word (.inl rfl) hw, readPath_word (.inr rfl) hv]
  | cons u us => simp [readPath_word (.inl rfl) hw]

theorem mem_of_mem_readPath {t v : Text} (h : readPath t = some v) {c : Char} (hc : c ∈ v) :
    c ∈ t := by
  have htrim : ∀ {d}, d ∈ Text.trim (Text.before '\t' t) → d ∈ t :=
    fun hd => (List.takeWhile_sublist _).subset (Text.mem_of_mem_trim hd)
  rw [readPath] at h
  split_ifs at h with hnone hside
  · cases h
    exact htrim (List.mem_of_mem_drop hc)
  · cases h
    exact htrim hc

theorem isSolid_read_fst {v : Text} (h : (p.read q).1 = some v) : IsSolid v :=
  Text.isSolid_of_mem_words (List.mem_of_mem_head? h)

theorem isSolid_read_snd {v : Text} (h : (p.read q).2 = some v) : IsSolid v := by
  rw [TrimmedPath.read] at h
  cases hu : (words p.text)[1]? with
  | none =>
    simp only [hu, Option.map_none, Option.getD_none] at h
    exact Text.isSolid_of_mem_words (List.mem_of_mem_head? h)
  | some u =>
    simp only [hu, Option.map_some, Option.getD_some] at h
    have hsolid : IsSolid u := Text.isSolid_of_mem_words (List.mem_of_getElem? hu)
    exact fun c hc => hsolid c (mem_of_mem_readPath h hc)

theorem read_eq_iff :
    (p.read q).1 = some p.text ∧ (p.read q).2 = some q.text ↔
      IsSolid p.text ∧ IsSolid q.text := by
  constructor
  · intro h
    exact ⟨isSolid_read_fst p q h.1, isSolid_read_snd p q h.2⟩
  · intro h
    rw [TrimmedPath.read, Text.words_of_isSolid p.ne_nil h.1, Text.words_of_isSolid q.ne_nil h.2]
    exact ⟨rfl, rfl⟩

end Words

theorem Identity.readLines_congr_prev {prev prev' : Option Text}
    (h : prev.any isOldMark = prev'.any isOldMark) (id : Identity) (ls : List Text) :
    readLines id prev ls = readLines id prev' ls := by
  cases ls with
  | nil => rfl
  | cons l ls => rw [readLines, readLines, readLine, readLine, h]

namespace FileDiff

/-- Without path marks the paths of a git section stay those of its first line. -/
theorem paths_of_isGitMark {text line : Text} {rest : List Text} {f : FileDiff}
    (hg : isGitMark line) (h : ¬HasBoundary rest) (hf : ofLines text (line :: rest) = .ok f) :
    f.identity.oldPath = (Identity.readGitMark line {}).oldPath ∧
      f.identity.newPath = (Identity.readGitMark line {}).newPath := by
  have hdiff : isDiffLine line = false := isDiffLine_of_isGitMark hg
  -- The line itself makes no pair of path marks with the one below it.
  have hold : (some line).any isOldMark = (none : Option Text).any isOldMark :=
    Bool.eq_false_iff.2 fun ho => absurd
      ((head?_of_isGitMark hg).symm.trans (head?_of_isOldMark ho)) (by decide)
  obtain ⟨hunks, -, hf⟩ := bind_eq_ok.1 hf
  cases hf
  simp only [List.takeWhile_cons, List.dropWhile_cons, hdiff, Bool.not_false, if_true,
    Identity.readBody_of_not_hasBoundary (not_hasBoundary_body h), Identity.ofHeader, Identity.readLines,
    Identity.readLine, hg]
  rw [Identity.readLines_congr_prev hold]
  exact Identity.paths_readLines _ (not_hasBoundary_header h)

theorem path_of_newPath {f : FileDiff} {t : Text} (h : f.identity.newPath = some t)
    (hne : t ≠ []) : f.path = t := by
  have hnamed : (some t).filter (!·.isEmpty) = some t := Option.filter_eq_some_iff.2 ⟨rfl, by simpa⟩
  simp only [path, h, hnamed, Option.some_or, Option.getD_some]

theorem isSolid_path {f : FileDiff} (hold : ∀ v, f.identity.oldPath = some v → IsSolid v)
    (hnew : ∀ v, f.identity.newPath = some v → IsSolid v) : IsSolid f.path := by
  have hunknown : IsSolid "unknown".toList := by decide
  simp only [path]
  cases hn : f.identity.newPath.filter (!·.isEmpty) with
  | some v => exact hnew v (Option.filter_eq_some_iff.1 hn).1
  | none =>
    cases ho : f.identity.oldPath.filter (!·.isEmpty) with
    | some v => exact hold v (Option.filter_eq_some_iff.1 ho).1
    | none => exact hunknown

/-- A file with the paths that the `diff --git` line of two paths is read as. -/
structure NamedBy (p q : TrimmedPath) (f : FileDiff) : Prop where
  old : f.identity.oldPath = (p.read q).1
  new : f.identity.newPath = (p.read q).2
  exact_iff : f.identity.oldPath = some p.text ∧ f.identity.newPath = some q.text ↔
    IsSolid p.text ∧ IsSolid q.text
  path : IsSolid p.text → IsSolid q.text → f.path = q.text
  same : p.text = q.text → (f.path = p.text ↔ IsSolid p.text)

theorem NamedBy.of_read {p q : TrimmedPath} {f : FileDiff}
    (hold : f.identity.oldPath = (p.read q).1) (hnew : f.identity.newPath = (p.read q).2) :
    NamedBy p q f := by
  have hpath : IsSolid p.text → IsSolid q.text → f.path = q.text := fun hp hq =>
    path_of_newPath (hnew.trans ((read_eq_iff p q).2 ⟨hp, hq⟩).2) q.ne_nil
  have hsolid : IsSolid f.path := isSolid_path (fun v hv => isSolid_read_fst p q (hold ▸ hv))
    (fun v hv => isSolid_read_snd p q (hnew ▸ hv))
  refine ⟨hold, hnew, ?_, hpath, fun heq => ⟨fun h => h ▸ hsolid, fun h => ?_⟩⟩
  · rw [hold, hnew]
    exact read_eq_iff p q
  · rw [hpath h (heq ▸ h), heq]

end FileDiff

section Renamed
variable (p q : TrimmedPath)

theorem plain_renameLines : ∀ l ∈ renameLines p q, Plain l := by
  have hpath : ∀ {r : TrimmedPath}, Plain r.text := fun {r} => .of_not_blank r.newline r.last
  simp only [renameLines, List.forall_mem_cons, List.not_mem_nil, false_imp_iff, implies_true,
    and_true]
  exact ⟨plain_gitLine _ _, .of_notMem (by decide) (by decide),
    .append (.of_notMem (by decide) (by decide)) hpath,
    .append (.of_notMem (by decide) (by decide)) hpath⟩

theorem getLast?_renameLines : (renameLines p q).getLast? ≠ some [] := by
  simp [renameLines]

theorem not_isDiffLine_renameLines : ∀ l ∈ renameLines p q, isDiffLine l = false := by
  simp only [renameLines, List.forall_mem_cons, List.not_mem_nil, false_imp_iff, implies_true,
    and_true]
  exact ⟨isDiffLine_of_isGitMark (isGitMark_gitLine _ _), rfl, rfl, rfl⟩

theorem ofChunk_renameLines {c : Text} (h : lines c = renameLines p q) :
    FileDiff.ofChunk c = .ok (p.renamed q c) := by
  have hgit : ∀ next, Identity.readLine none (p.gitLine q) next {} =
      Identity.readGitMark (p.gitLine q) {} := fun _ => rfl
  have hsame : ∀ prev next id,
      Identity.readLine prev "similarity index 100%".toList next id = id := fun _ _ _ => rfl
  have hfrom : ∀ prev next id, Identity.readLine prev ("rename from ".toList ++ p.text) next id =
      { id with isRenamed := true } := fun _ _ _ => rfl
  have hto : ∀ prev next id, Identity.readLine prev ("rename to ".toList ++ q.text) next id =
      { id with isRenamed := true } := fun _ _ _ => rfl
  rw [FileDiff.ofChunk, h, FileDiff.ofLines_header c (not_isDiffLine_renameLines p q)]
  simp only [Identity.ofHeader, renameLines, Identity.readLines, hgit, hsame, hfrom, hto,
    readGitMark_gitLine]
  rfl

theorem namedBy_renamed (text : Text) : (p.renamed q text).NamedBy p q := .of_read rfl rfl

theorem isSection_renameLines : IsSection (fun l _ => isGitMark l) (renameLines p q) := by
  refine isSection_of_first (isGitMark_gitLine _ _) ?_
  simp only [List.forall_mem_cons, List.not_mem_nil, false_imp_iff, implies_true, and_true]
  exact ⟨rfl, rfl, rfl⟩

theorem chunks_renameLines {t : Text} (h : lines t = renameLines p q) :
    chunks t = [Text.unlines (renameLines p q)] := by
  have hg : (lines t).any isGitMark := by
    rw [h]
    exact List.any_eq_true.2 ⟨_, List.mem_cons_self, isGitMark_gitLine _ _⟩
  have hcut : sectionsBy (fun l _ => isGitMark l) (lines t) = ([], [renameLines p q]) := by
    rw [h]
    exact (isSection_renameLines p q).alone
  rw [chunks_of_isGitMark hg hcut (List.cons_ne_nil _ _)]
  rfl

theorem parse_renameLines {t : Text} (h : lines t = renameLines p q) :
    Document.parse t = .ok ⟨[p.renamed q (Text.unlines (renameLines p q))]⟩ := by
  have hlines := lines_unlines (plain_renameLines p q) (getLast?_renameLines p q)
  rw [Document.parse, chunks_renameLines p q h, List.mapM_cons, ofChunk_renameLines p q hlines]
  rfl

end Renamed

/-- A git section without a pair of path marks has the words of its first line for paths. They are
the paths of both sides exactly if no side has a blank, whatever the lines of a renaming say. -/
theorem paths_of_gitLine (p q : TrimmedPath) :
    (∀ c rest, lines c = p.gitLine q :: rest → ¬HasBoundary rest →
      (∀ f, FileDiff.ofChunk c = .ok f → f.NamedBy p q) ∧
      ((∀ l ∈ rest, isDiffLine l = false) →
        ∃ f, FileDiff.ofChunk c = .ok f ∧ f.hunks = [])) ∧
    (∀ c, lines c = renameLines p q →
      ∃ f, FileDiff.ofChunk c = .ok f ∧ f.NamedBy p q ∧ f.identity.isRenamed ∧ f.hunks = [] ∧
        ∀ t d, c ∈ chunks t → Document.parse t = .ok d →
          f ∈ d.files ∧ f.path ∈ d.stats.renamedFiles) ∧
    (∀ t, lines t = renameLines p q →
      ∃ f, Document.parse t = .ok ⟨[f]⟩ ∧ f.NamedBy p q ∧
        (Document.stats ⟨[f]⟩).renamedFiles = [f.path]) := by
  refine ⟨fun c rest hc hrest => ⟨fun f hf => ?_, fun hdiff => ?_⟩, fun c hc => ?_, fun t ht => ?_⟩
  · rw [FileDiff.ofChunk, hc] at hf
    obtain ⟨hold, hnew⟩ := FileDiff.paths_of_isGitMark (isGitMark_gitLine _ _) hrest hf
    have hread := readGitMark_gitLine p q {}
    exact .of_read (hold.trans (congrArg _ hread)) (hnew.trans (congrArg _ hread))
  · have hheader : ∀ l ∈ p.gitLine q :: rest, isDiffLine l = false :=
      List.forall_mem_cons.2 ⟨isDiffLine_of_isGitMark (isGitMark_gitLine _ _), hdiff⟩
    exact ⟨_, by rw [FileDiff.ofChunk, hc, FileDiff.ofLines_header c hheader], rfl⟩
  · have hread := ofChunk_renameLines p q hc
    refine ⟨_, hread, namedBy_renamed p q c, rfl, rfl, fun t d hmem hd => ?_⟩
    obtain ⟨fs, hfs, hd⟩ := bind_eq_ok.1 hd
    cases hd
    have hf := mem_of_mapM hfs hmem hread
    exact ⟨hf, List.mem_map_of_mem (List.mem_filter.2 ⟨hf, rfl⟩)⟩
  · exact ⟨_, parse_renameLines p q ht, namedBy_renamed p q _, rfl⟩

/-- Paths without a blank, in a diff with carriage returns, a new mode and a binary file. -/
theorem paths_of_gitLine_solid :
    let p : TrimmedPath := ⟨⟨"a.png".toList, by decide, by decide, by decide⟩, by decide⟩
    let q : TrimmedPath := ⟨⟨"b/c.png".toList, by decide, by decide, by decide⟩, by decide⟩
    let mode := ["old mode 100644".toList, "new mode 100755".toList, "Binary files differ".toList]
    let changed := Text.unlines (p.gitLine q :: mode)
    let moved := ("diff --git a/a.png b/b/c.png\r\nsimilarity index 100%\r\n".toList ++
      "rename from a.png\r\nrename to b/c.png\r\n".toList)
    let joined := "diff --git a/d b/d\n".toList ++ moved
    (∃ f, FileDiff.ofChunk changed = .ok f ∧ f.NamedBy p q ∧ f.hunks = [] ∧ f.path = q.text) ∧
      (∃ f, Document.parse moved = .ok ⟨[f]⟩ ∧ f.NamedBy p q ∧
        (Document.stats ⟨[f]⟩).renamedFiles = [f.path] ∧ f.path = q.text) ∧
      ∃ f d, Document.parse joined = .ok d ∧ f ∈ d.files ∧ f.path ∈ d.stats.renamedFiles := by
  intro p q mode changed moved joined
  have hp : IsSolid p.text := by decide
  have hq : IsSolid q.text := by decide
  obtain ⟨hsection, hrename, hparse⟩ := paths_of_gitLine p q
  obtain ⟨hnamed, hempty⟩ := hsection changed mode (by decide) (by decide)
  obtain ⟨f, hf, hhunks⟩ := hempty (by decide)
  obtain ⟨g, hg, hgnamed, hstats⟩ := hparse moved (by decide)
  obtain ⟨k, -, -, -, -, hmem⟩ := hrename (Text.unlines (renameLines p q)) (by decide)
  have hjoined : Document.parse joined = .ok _ := rfl
  exact ⟨⟨f, hf, hnamed f hf, hhunks, (hnamed f hf).path hp hq⟩,
    ⟨g, hg, hgnamed, hstats, hgnamed.path hp hq⟩, k, _, hjoined,
    hmem joined _ (by decide) hjoined⟩

/-- The second word of a path with a blank stands for the other path, and so for the file. -/
theorem path_of_gitLine_blank :
    let mode := "diff --git a/my file b/my file\nold mode 100644\nnew mode 100755\n".toList
    let moved := ("diff --git a/my file b/new file\nsimilarity index 100%\n".toList ++
      "rename from my file\nrename to new file\n".toList)
    (∃ f, Document.parse mode = .ok ⟨[f]⟩ ∧ f.path = "file".toList) ∧
      ∃ f, Document.parse moved = .ok ⟨[f]⟩ ∧ f.identity.oldPath = some "my".toList ∧
        f.identity.newPath = some "file".toList ∧
        (Document.stats ⟨[f]⟩).renamedFiles = ["file".toList] := by
  intro mode moved
  exact ⟨⟨_, rfl, by decide⟩, _, rfl, by decide, by decide, by decide⟩

end PatchReview.Diff
