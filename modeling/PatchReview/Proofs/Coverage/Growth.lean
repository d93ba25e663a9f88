import PatchReview.Proofs.Coverage.Partition
import PatchReview.Proofs.Diff.Order

set_option autoImplicit false

namespace PatchReview

namespace Text

theorem unlines_append {xs ys : List Text} (hx : xs ≠ []) (hy : ys ≠ []) :
    unlines (xs ++ ys) = unlines xs ++ '\n' :: unlines ys := by
  induction xs with
  | nil => exact absurd rfl hx
  | cons x xs ih =>
    cases xs with
    | nil => exact unlines_cons_of_ne_nil x hy
    | cons m ms =>
      have hrest := ih (by simp)
      simp only [List.cons_append] at hrest ⊢
      rw [unlines_cons_cons, hrest, unlines_cons_cons, List.append_assoc, List.cons_append]

end Text

namespace Diff

theorem isGitMark_append {s : Text} (h : isGitMark s) (t : Text) : isGitMark (s ++ t) := by
  rw [isGitMark, startsWith, List.isPrefixOf_iff_prefix] at h ⊢
  exact h.trans (List.prefix_append s t)

theorem Document.parse_append {d added : Text} (hd : d = [] ∨ IsGitText d)
    (hadded : added = [] ∨ isGitMark added) :
    Document.parse (d ++ added) = (do
      let a ← Document.parse d
      let b ← Document.parse added
      .ok ⟨a.files ++ b.files⟩) := by
  have hnil : chunks [] = [] := rfl
  refine Document.parse_of_chunks_append ?_
  rcases hadded with rfl | hadded
  · rw [List.append_nil, hnil, List.append_nil]
  rcases hd with rfl | hd
  · rw [List.nil_append, hnil, List.nil_append]
  · refine chunks_append hd.ends ?_ hadded
    rw [← any_isGitMark_lines]
    exact any_isGitMark_of_isGitMark hd.starts

end Diff

namespace Coverage

open PatchReview.Diff

theorem mentions_lower_append {xs : List Text} (ys : List Text) {name : Text}
    (h : mentions (Text.lower (Text.unlines xs)) name) :
    mentions (Text.lower (Text.unlines (xs ++ ys))) name := by
  by_cases hx : xs = []
  · subst hx
    exact absurd h (by simp [Text.unlines, not_mentions_nil])
  by_cases hy : ys = []
  · rwa [hy, List.append_nil]
  rw [mentions, Bool.and_eq_true, Text.occursIn_iff] at h ⊢
  refine ⟨h.1, ?_⟩
  -- The newline between the texts keeps the lower case of each of them.
  rw [Text.unlines_append hx hy, Text.lower_append_newline]
  exact h.2.trans (List.prefix_append _ _).isInfix

theorem testText_append (fs gs : List FileDiff) :
    testText ⟨fs ++ gs⟩ = Text.unlines ((fs.filter touchesTest).map (·.text) ++
      (gs.filter touchesTest).map (·.text)) := by
  rw [testText, List.filter_append, List.map_append]

/-- Files that are no tests leave no trace in the text that mentions are sought in. -/
theorem testText_insert (fs gs hs : List FileDiff) (h : ∀ g ∈ gs, touchesTest g = false) :
    testText ⟨fs ++ gs ++ hs⟩ = testText ⟨fs ++ hs⟩ := by
  have hgs : gs.filter touchesTest = [] := by
    rw [List.filter_eq_nil_iff]
    exact fun g hg => by simp [h g hg]
  rw [testText, List.filter_append, List.filter_append, hgs, List.append_nil, ← List.filter_append]
  rfl

/-- More changed paths and more mentions do not take a test away. -/
theorem isCovered_mono {source content content' : Text} {changed changed' : List Text}
    (hchanged : changed ⊆ changed')
    (hmentions : ∀ name, mentions (Text.lower content) name → mentions (Text.lower content') name)
    (h : isCovered source changed content) : isCovered source changed' content' := by
  rw [isCovered, hasTest, Bool.or_eq_true, List.any_eq_true] at h ⊢
  rcases h with ⟨path, hpath, hname⟩ | h
  · exact .inl ⟨path, hchanged hpath, hname⟩
  · exact .inr (hmentions _ h)

namespace Report

theorem covered_ofChanges_mono {changed changed' : List Text} {content content' : Text}
    (hchanged : changed ⊆ changed')
    (hmentions : ∀ name, mentions (Text.lower content) name → mentions (Text.lower content') name) :
    (ofChanges changed content).covered ⊆ (ofChanges changed' content').covered := by
  intro path hpath
  rw [mem_covered_ofChanges, mem_sourceFiles_ofChanges] at hpath ⊢
  obtain ⟨⟨hmem, hsource⟩, hcovered⟩ := hpath
  have hdistinct : distinct changed ⊆ distinct changed' := fun p hp =>
    mem_distinct.2 (hchanged (mem_distinct.1 hp))
  exact ⟨⟨hchanged hmem, hsource⟩, isCovered_mono hdistinct hmentions hcovered⟩

/-- The reports say the same of every path, in whatever order. -/
structure SameVerdicts (r r' : Report) : Prop where
  covered : ∀ path, path ∈ r.covered ↔ path ∈ r'.covered
  uncovered : ∀ path, path ∈ r.uncovered ↔ path ∈ r'.uncovered
  newTests : ∀ path, path ∈ r.newTests ↔ path ∈ r'.newTests

/-- What the first report calls covered the second one calls covered, and not uncovered. -/
def KeepsCovered (r r' : Report) : Prop :=
  ∀ path ∈ r.covered, path ∈ r'.covered ∧ path ∉ r'.uncovered

theorem sameVerdicts_ofChanges {changed changed' : List Text}
    (h : ∀ path, path ∈ changed' ↔ path ∈ changed) (content : Text) :
    (ofChanges changed content).SameVerdicts (ofChanges changed' content) := by
  have hcovered (source : Text) : isCovered source (distinct changed) content =
      isCovered source (distinct changed') content := by
    have hmem (path : Text) : path ∈ distinct changed ↔ path ∈ distinct changed' := by
      rw [mem_distinct, mem_distinct, h]
    rw [Bool.eq_iff_iff]
    constructor
    · exact isCovered_mono (fun path => (hmem path).1) fun _ => id
    · exact isCovered_mono (fun path => (hmem path).2) fun _ => id
  constructor <;> intro path
  · simp only [mem_covered_ofChanges, mem_sourceFiles_ofChanges, h, hcovered]
  · simp only [mem_uncovered_ofChanges, mem_sourceFiles_ofChanges, h, hcovered]
  · simp only [mem_newTests_ofChanges, h]

theorem keepsCovered_ofChanges {changed changed' : List Text} {content content' : Text}
    (hchanged : changed ⊆ changed')
    (hmentions : ∀ name, mentions (Text.lower content) name → mentions (Text.lower content') name) :
    (ofChanges changed content).KeepsCovered (ofChanges changed' content') := by
  intro path hpath
  have hin := covered_ofChanges_mono hchanged hmentions hpath
  have hdisjoint := (isPartition_ofChanges changed' content').disjoint.1
  exact ⟨hin, hdisjoint hin⟩

end Report

/-- The order and the repetitions of the changed paths do not matter, and a covered file stays
covered when paths are added and when sections are added to the diff. -/
theorem covered_of_more {changed : List Text} {diff : Text} {r : Report}
    (h : mapTests changed diff = .ok r) :
    (∀ changed' : List Text, (∀ path, path ∈ changed' ↔ path ∈ changed) →
      ∃ r', mapTests changed' diff = .ok r' ∧ r.SameVerdicts r') ∧
    (∀ changed' : List Text, changed ⊆ changed' →
      ∃ r', mapTests changed' diff = .ok r' ∧ r.KeepsCovered r') ∧
    ∀ (changed' : List Text) (added : Text), changed ⊆ changed' → (diff = [] ∨ IsGitText diff) →
      startsWith "diff --git" added → (∃ d, Document.parse added = .ok d) →
      ∃ r', mapTests changed' (diff ++ added) = .ok r' ∧ r.KeepsCovered r' := by
  obtain ⟨d, hd, rfl⟩ := mapTests_eq_ok.1 h
  refine ⟨fun changed' hsame => ?_, fun changed' hsub => ?_, ?_⟩
  · exact ⟨_, mapTests_eq_ok.2 ⟨d, hd, rfl⟩, Report.sameVerdicts_ofChanges hsame _⟩
  · exact ⟨_, mapTests_eq_ok.2 ⟨d, hd, rfl⟩, Report.keepsCovered_ofChanges hsub fun _ => id⟩
  · intro changed' added hsub hdiff hadded ⟨e, he⟩
    have hparse : Document.parse (diff ++ added) = .ok ⟨d.files ++ e.files⟩ := by
      rw [Document.parse_append hdiff (.inr hadded), hd, he]
      rfl
    refine ⟨_, mapTests_eq_ok.2 ⟨_, hparse, rfl⟩, Report.keepsCovered_ofChanges hsub ?_⟩
    intro name hname
    rw [testText_append]
    exact mentions_lower_append _ hname

/-- The mention of a name that ends in a sigma, before a section that goes on with a letter. -/
theorem covered_of_more_sigma :
    let changed := ["Σ.ts".toList]
    let diff := "diff --git a/t_test.c b/t_test.c\n@@ -0,0 +1 @@\n+Σ\n".toList
    let added := "diff --git a/u_test.c b/u_test.c\n@@ -0,0 +1 @@\n+x\n".toList
    let changed' := ["u.c".toList, "Σ.ts".toList, "u.c".toList]
    ∃ r, mapTests changed diff = .ok r ∧ r.covered = ["Σ.ts".toList] ∧
      (∃ r', mapTests (changed ++ changed) diff = .ok r' ∧ r.SameVerdicts r') ∧
      ∃ r', mapTests changed' (diff ++ added) = .ok r' ∧ r.KeepsCovered r' := by
  intro changed diff added changed'
  have h : mapTests changed diff = .ok _ := rfl
  obtain ⟨horder, -, hmore⟩ := covered_of_more h
  refine ⟨_, h, by decide +kernel, horder _ (by simp), hmore changed' added ?_ ?_ ?_ ?_⟩
  · simp [changed, changed']
  · exact .inr ⟨by decide, by decide⟩
  · decide
  · exact ⟨_, rfl⟩

/-- Sections without a test can be put between other sections, or taken out, without a change of
the report, whatever stands in them. -/
theorem mapTests_insert_section {before added after : Text} {d : Document}
    (hbefore : before = [] ∨ IsGitText before) (hadded : IsGitText added)
    (hafter : after = [] ∨ IsGitText after) (hd : Document.parse added = .ok d)
    (hnone : ∀ f ∈ d.files, ∀ path,
      f.identity.oldPath = some path ∨ f.identity.newPath = some path → isTestFile path = false)
    (changed : List Text) :
    mapTests changed (before ++ added ++ after) = mapTests changed (before ++ after) := by
  have htouch : ∀ f ∈ d.files, touchesTest f = false := by
    intro f hf
    rw [touchesTest, Bool.or_eq_false_iff, Option.any_eq_false, Option.any_eq_false]
    exact ⟨fun path hp => by simp [hnone f hf path (.inl hp)],
      fun path hp => by simp [hnone f hf path (.inr hp)]⟩
  have hfront : isGitMark (added ++ after) := isGitMark_append hadded.starts after
  rw [List.append_assoc, mapTests, mapTests, Document.parse_append hbefore (.inr hfront),
    Document.parse_append (.inr hadded) (hafter.imp_right IsGitText.starts), hd,
    Document.parse_append hbefore (hafter.imp_right IsGitText.starts)]
  cases Document.parse before with
  | error e => rfl
  | ok a =>
    cases Document.parse after with
    | error e => rfl
    | ok b =>
      have htext := testText_insert a.files d.files b.files htouch
      rw [List.append_assoc] at htext
      exact congrArg (fun t => Except.ok (Report.ofChanges changed t)) htext

/-- A section that names the source and, under its header, a test of it. -/
theorem mapTests_insert_section_named :
    let before := "diff --git a/y.c b/y.c\n@@ -0,0 +1 @@\n+y\n".toList
    let added := "diff --git a/z.c b/z.c\n@@ -1 +1 @@\n+x\n--- a/x.test.ts\n+++ b/x.test.ts\n".toList
    let after := "diff --git a/y_test.c b/y_test.c\n@@ -0,0 +1 @@\n+y\n".toList
    let changed := ["x.ts".toList, "y.c".toList]
    mapTests changed (before ++ added ++ after) = mapTests changed (before ++ after) ∧
      ∃ r, mapTests changed (before ++ after) = .ok r ∧ r.covered = ["y.c".toList] ∧
        r.uncovered = ["x.ts".toList] := by
  intro before added after changed
  have hbefore : IsGitText before := ⟨by decide +kernel, by decide +kernel⟩
  have hadded : IsGitText added := ⟨by decide +kernel, by decide +kernel⟩
  have hafter : IsGitText after := ⟨by decide +kernel, by decide +kernel⟩
  let path := "z.c".toList
  have hpath : isTestFile path = false := by decide +kernel
  obtain ⟨d, hd, hnames⟩ : ∃ d, Document.parse added = .ok d ∧
      d.files.map (·.identity) = [⟨some path, some path, false, false, false⟩] :=
    ⟨_, rfl, rfl⟩
  have hnone : ∀ f ∈ d.files, ∀ name,
      f.identity.oldPath = some name ∨ f.identity.newPath = some name →
        isTestFile name = false := by
    intro f hf name hname
    have hidentity := List.mem_map_of_mem (f := (·.identity)) hf
    rw [hnames, List.mem_singleton] at hidentity
    rw [hidentity, or_self] at hname
    cases hname
    exact hpath
  exact ⟨mapTests_insert_section (.inr hbefore) hadded (.inr hafter) hd hnone changed,
    _, rfl, by decide +kernel, by decide +kernel⟩

end Coverage

end PatchReview
