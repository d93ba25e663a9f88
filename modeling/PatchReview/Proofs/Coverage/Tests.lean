import PatchReview.Coverage.Mapping
import PatchReview.Proofs.Coverage.Mentions
import PatchReview.Proofs.Coverage.Names
import PatchReview.Proofs.Fallible

/-!
Where coverage comes from. The rules that recognise a test and those that recognise the test of a
given source agree on all paths but one kind: `test_` before the name and another extension than
`.py`. Main statement: `covered_from_test`.
-/

set_option autoImplicit false

namespace PatchReview

namespace Coverage

open PatchReview.Diff Pattern

theorem notMem_extension : ∀ ext ∈ extensions,
    '.' ∉ ext.toList ∧ '/' ∉ ext.toList ∧ '\n' ∉ ext.toList := by
  decide

theorem IsTail.eq_cons {ext : String} (hext : ext ∈ extensions) {t : Text} (h : IsTail ext t) :
    ∃ u, t = '.' :: u ∧ '.' ∉ u ∧ '/' ∉ u ∧ u.takeWhile (· != '\n') = ext.toList := by
  obtain ⟨hdot, hslash, hline⟩ := notMem_extension ext hext
  have htake : ∀ c ∈ ext.toList, (c != '\n') = true := by
    intro c hc
    simpa using fun he : c = '\n' => hline (he ▸ hc)
  rcases h with rfl | rfl
  · exact ⟨ext.toList, rfl, hdot, hslash, List.takeWhile_eq_self_iff.2 htake⟩
  · refine ⟨ext.toList ++ ['\n'], rfl, by simpa using hdot, by simpa using hslash, ?_⟩
    rw [List.takeWhile_append_of_pos htake]
    exact List.append_nil _

theorem IsTail.append_inj {ext ext' : String} (hext : ext ∈ extensions) (hext' : ext' ∈ extensions)
    {x x' t t' : Text} (ht : IsTail ext t) (ht' : IsTail ext' t') (h : x ++ t = x' ++ t') :
    x = x' ∧ ext = ext' := by
  obtain ⟨u, rfl, hdot, -, hu⟩ := ht.eq_cons hext
  obtain ⟨u', rfl, hdot', -, hu'⟩ := ht'.eq_cons hext'
  have huu : u = u' := by
    rw [← Text.afterLast_append_cons hdot x, h, Text.afterLast_append_cons hdot']
  subst huu
  exact ⟨List.append_cancel_right h, String.toList_inj.1 (hu.symm.trans hu')⟩

theorem isSourceFile_iff {path : Text} :
    isSourceFile path ↔ isTestFile path = false ∧ extensionEnd.occurs path ∧
      excludedPatterns.any (·.occurs path) = false := by
  simp [isSourceFile, and_assoc]

theorem exists_tail_of_source {source : Text} (h : isSourceFile source) :
    ∃ x, ∃ ext ∈ extensions, ∃ t, IsTail ext t ∧ source = x ++ t := by
  obtain ⟨x, t, rfl, ht⟩ := occurs_iff.1 (isSourceFile_iff.1 h).2.1
  obtain ⟨ext, hext, ht⟩ := starts_extensionEnd.1 ht
  exact ⟨x, ext, hext, t, ht, rfl⟩

theorem not_hasTestEnding_of_source {source : Text} (h : isSourceFile source) :
    ¬HasTestEnding source := fun hend => by
  have hnot := (isSourceFile_iff.1 h).1
  rw [isTestFile_iff.2 (.inl hend)] at hnot
  contradiction

theorem suffix_of_suffix_append_cons {c : Char} {w z u : Text} (hw : c ∉ w)
    (h : w <:+ z ++ c :: u) : w <:+ u := by
  rcases List.suffix_or_suffix_of_suffix h (List.suffix_append z (c :: u)) with h | h
  · rcases List.suffix_cons_iff.1 h with rfl | h
    · simp at hw
    · exact h
  · exact absurd (h.subset List.mem_cons_self) hw

theorem testEnding_not_suffix_tail {s ext : String} (hs : s ∈ testEndings) (hext : ext ∈ extensions)
    {z t : Text} (ht : IsTail ext t) : ¬s.toList <:+ z ++ t := by
  have hall : ∀ s ∈ testEndings, '.' ∉ s.toList.tail ∧ ∀ ext ∈ extensions,
      ¬s.toList.tail <:+ ext.toList ∧ ¬s.toList.tail <:+ ext.toList ++ ['\n'] := by decide
  obtain ⟨hdot, hnot⟩ := hall s hs
  intro h
  have htail := (List.tail_suffix s.toList).trans h
  rcases ht with rfl | rfl
  · exact (hnot ext hext).1 (suffix_of_suffix_append_cons hdot htail)
  · exact (hnot ext hext).2 (suffix_of_suffix_append_cons hdot htail)

theorem not_testEnding_suffix_baseName {source : Text} (h : isSourceFile source) {s : String}
    (hs : s ∈ testEndings) : ¬s.toList <:+ Path.baseName source := by
  obtain ⟨x, ext, hext, t, ht, rfl⟩ := exists_tail_of_source h
  obtain ⟨u, rfl, hdot, hslash, -⟩ := ht.eq_cons hext
  rw [Path.baseName_append hdot hslash]
  intro hsuf
  split at hsuf
  · exact testEnding_not_suffix_tail hs hext ht hsuf
  · obtain ⟨z, hz⟩ := hsuf.trans (Text.afterLast_suffix x)
    exact not_hasTestEnding_of_source h ⟨z, s, hs, '.' :: u, ⟨ext, hext, ht⟩, by rw [hz]⟩

/-- A name behind `test_` ends as a test does by itself, or because it is `test`. -/
theorem eq_test_of_suffix {s : String} (hs : s ∈ testEndings) {d name : Text}
    (h : s.toList <:+ d ++ "test_".toList ++ name) (hname : ¬s.toList <:+ name) :
    name = "test".toList := by
  rcases List.suffix_or_suffix_of_suffix h (List.suffix_append _ name) with h' | ⟨z, hz⟩
  · exact absurd h' hname
  have hz' : z <:+ (d ++ "test".toList) ++ ['_'] := by
    obtain ⟨y, hy⟩ := h
    have hname : y ++ z ++ name = d ++ "test".toList ++ ['_'] ++ name := by simpa [← hz] using hy
    exact ⟨y, List.append_cancel_right hname⟩
  rcases List.suffix_concat_iff.1 hz' with rfl | ⟨y, rfl, -⟩
  · exact absurd (hz ▸ List.suffix_refl _) hname
  have hmark : '_' ∈ s.toList := by simp [← hz]
  simp only [testEndings, List.mem_cons, List.not_mem_nil, or_false] at hs
  rcases hs with rfl | rfl | rfl
  · exact absurd hmark (by decide)
  · exact absurd hmark (by decide)
  replace hz : y ++ '_' :: name = '_' :: "test".toList := by simpa using hz
  cases y with
  | nil => exact (List.cons.inj hz).2
  | cons c y =>
    have hin : '_' ∈ "test".toList := by simp [← (List.cons.inj hz).2]
    exact absurd hin (by decide)

/-- Named after a source, but not recognised as a test: `test_` stands before the name, and the
extension is not `.py`. -/
def IsForeignTest (name path : Text) : Prop :=
  name ≠ "test".toList ∧ ¬InTestsDirectory path ∧
    ∃ d, ∃ ext ∈ extensions, ∃ t, ext ≠ "py" ∧ IsDirectory d ∧ IsTail ext t ∧
      path = d ++ "test_".toList ++ name ++ t

theorem isTestFile_iff_not_isForeignTest {source path : Text} (hsource : isSourceFile source)
    (h : isSameNameTest (Path.baseName source) path) :
    isTestFile path ↔ ¬IsForeignTest (Path.baseName source) path := by
  rw [isTestFile_iff]
  constructor
  · rintro htest ⟨hne, hdir, d, ext, hext, t, hpy, hd, ht, rfl⟩
    rcases htest with ⟨x, s, hs, t', ⟨ext', hext', ht'⟩, heq⟩ | htest | ⟨d', m, t', -, -, ht', heq⟩
    · obtain ⟨hx, -⟩ := ht.append_inj hext hext' ht' heq
      exact hne (eq_test_of_suffix hs ⟨x, hx.symm⟩ (not_testEnding_suffix_baseName hsource hs))
    · exact hdir htest
    · exact hpy (ht.append_inj hext (by decide) ht' heq).2
  · intro hforeign
    rcases isSameNameTest_iff.1 h with ⟨d, s, hs, t, -, ht, rfl⟩ |
      ⟨d, t, hd, ⟨ext, hext, ht⟩, rfl⟩ | ⟨d, m, t, hd, -, -, rfl⟩
    · exact .inl ⟨d ++ Path.baseName source, s, hs, t, ht, rfl⟩
    · by_cases hdir : InTestsDirectory (d ++ "test_".toList ++ Path.baseName source ++ t)
      · exact .inr (.inl hdir)
      by_cases hpy : ext = "py"
      · exact .inr (.inr ⟨d, _, t, hd, Path.slash_notMem_baseName source, hpy ▸ ht, rfl⟩)
      by_cases hne : Path.baseName source = "test".toList
      · exact .inl ⟨d ++ "test".toList, "_test", by decide, t, ⟨ext, hext, ht⟩, by simp [hne]⟩
      · exact absurd ⟨hne, hdir, d, ext, hext, t, hpy, hd, ht, rfl⟩ hforeign
    · exact .inr (.inl ⟨d, m ++ Path.baseName source ++ t, hd, by simp⟩)

theorem mapTests_eq_ok {changed : List Text} {diff : Text} {r : Report} :
    mapTests changed diff = .ok r ↔
      ∃ d, Document.parse diff = .ok d ∧ Report.ofChanges changed (testText d) = r := by
  simp only [mapTests, bind_eq_ok, Except.ok.injEq]

theorem covered_cases {changed : List Text} {d : Document} {source : Text}
    (h : source ∈ (Report.ofChanges changed (testText d)).covered) :
    isSourceFile source ∧
      ((∃ path ∈ changed, isSameNameTest (Path.baseName source) path) ∨
        ∃ f ∈ d.files, touchesTest f) := by
  rw [Report.covered_ofChanges, Report.sourceFiles_ofChanges, List.mem_filter, List.mem_filter] at h
  obtain ⟨⟨-, hsource⟩, hcovered⟩ := h
  refine ⟨hsource, ?_⟩
  simp only [isCovered, hasTest, Bool.or_eq_true, List.any_eq_true, mem_distinct] at hcovered
  refine hcovered.imp_right fun hmention => ?_
  by_contra hnone
  have hfilter : d.files.filter touchesTest = [] := by
    rw [List.filter_eq_nil_iff]
    exact fun f hf htouch => hnone ⟨f, hf, htouch⟩
  rw [testText, hfilter] at hmention
  exact Bool.false_ne_true ((not_mentions_nil _).symm.trans hmention)

/-- The tests of a changed source are recognised as tests but for one kind, and coverage comes from
a test that is recognised or from one of that kind. -/
theorem covered_from_test {changed : List Text} {diff : Text} {r : Report}
    (h : mapTests changed diff = .ok r) :
    (∀ source ∈ r.sourceFiles, ∀ path ∈ changed, isSameNameTest (Path.baseName source) path →
      (isTestFile path ↔ ¬IsForeignTest (Path.baseName source) path)) ∧
    ∃ d, Document.parse diff = .ok d ∧ ∀ source ∈ r.covered,
      r.newTests ≠ [] ∨
      (∃ f ∈ d.files, ∃ path, (f.identity.oldPath = some path ∨ f.identity.newPath = some path) ∧
        isTestFile path) ∨
      ∃ path ∈ changed, IsForeignTest (Path.baseName source) path := by
  obtain ⟨d, hd, rfl⟩ := mapTests_eq_ok.1 h
  constructor
  · intro source hsource path _ hname
    rw [Report.sourceFiles_ofChanges, List.mem_filter] at hsource
    exact isTestFile_iff_not_isForeignTest hsource.2 hname
  refine ⟨d, hd, fun source hcovered => ?_⟩
  obtain ⟨hsource, ⟨path, hpath, hname⟩ | ⟨f, hf, htouch⟩⟩ := covered_cases hcovered
  · by_cases hforeign : IsForeignTest (Path.baseName source) path
    · exact .inr (.inr ⟨path, hpath, hforeign⟩)
    · have htest := (isTestFile_iff_not_isForeignTest hsource hname).2 hforeign
      refine .inl (List.ne_nil_of_mem (a := path) ?_)
      rw [Report.newTests_ofChanges, List.mem_filter]
      exact ⟨mem_distinct.2 hpath, htest⟩
  · refine .inr (.inl ⟨f, hf, ?_⟩)
    rw [touchesTest, Bool.or_eq_true, Option.any_eq_true, Option.any_eq_true] at htouch
    rcases htouch with ⟨path, hpath, htest⟩ | ⟨path, hpath, htest⟩
    · exact ⟨path, .inl hpath, htest⟩
    · exact ⟨path, .inr hpath, htest⟩

theorem covered_from_test_spec :
    let changed := ["x.ts".toList, "x.spec.ts".toList]
    ∃ r, mapTests changed [] = .ok r ∧ r.covered = ["x.ts".toList] ∧
      r.newTests = ["x.spec.ts".toList] ∧
      ∀ source ∈ r.sourceFiles, ∀ path ∈ changed, isSameNameTest (Path.baseName source) path →
        (isTestFile path ↔ ¬IsForeignTest (Path.baseName source) path) := by
  intro changed
  have h : mapTests changed [] = .ok (Report.ofChanges changed (testText ⟨[]⟩)) := rfl
  exact ⟨_, h, by decide, by decide, (covered_from_test h).1⟩

/-- A source is covered by a file that is not recognised as a test. -/
theorem covered_from_no_test :
    let changed := ["x.ts".toList, "test_x.ts".toList]
    ∃ r, mapTests changed [] = .ok r ∧ Document.parse [] = .ok ⟨[]⟩ ∧
      r.covered = ["x.ts".toList] ∧ r.newTests = [] ∧
      isSameNameTest (Path.baseName "x.ts".toList) "test_x.ts".toList ∧
      isTestFile "test_x.ts".toList = false :=
  ⟨_, rfl, by decide, by decide, by decide, by decide, by decide⟩

end Coverage

end PatchReview
