import PatchReview.Proofs.Coverage.Tests
import PatchReview.Proofs.Distinct

set_option autoImplicit false

namespace PatchReview

namespace Coverage

open PatchReview.Diff

/-- The report lists the changed sources and tests, each once and on one list, and counts them. -/
structure Report.IsPartition (changed : List Text) (r : Report) : Prop where
  disjoint : r.covered.Disjoint r.uncovered ∧ r.covered.Disjoint r.newTests ∧
    r.uncovered.Disjoint r.newTests
  nodup : ∀ l ∈ [r.covered, r.uncovered, r.newTests], l.Nodup
  inOrder : ∀ l ∈ [r.covered, r.uncovered, r.newTests],
    l.Pairwise fun a b => changed.idxOf a < changed.idxOf b
  mem_newTests : ∀ path, path ∈ r.newTests ↔ path ∈ changed ∧ isTestFile path
  mem_sources : ∀ path, Xor (path ∈ r.covered) (path ∈ r.uncovered) ↔
    path ∈ changed ∧ isSourceFile path
  toJson_eq : r.toJson = .ofMembers [
    ("covered", .texts r.covered),
    ("uncovered", .texts r.uncovered),
    ("newTests", .texts r.newTests),
    ("summary", .ofMembers [
      ("sourceFiles", .ofNat (r.covered.length + r.uncovered.length)),
      ("coveredCount", .ofNat r.covered.length),
      ("uncoveredCount", .ofNat r.uncovered.length),
      ("newTestCount", .ofNat r.newTests.length)]),
    ("vibeTranslation", .str r.headline)]

namespace Report

variable (changed : List Text) (content : Text)

theorem mem_sourceFiles_ofChanges {path : Text} :
    path ∈ (ofChanges changed content).sourceFiles ↔ path ∈ changed ∧ isSourceFile path := by
  rw [sourceFiles_ofChanges, List.mem_filter, mem_distinct]

theorem mem_newTests_ofChanges {path : Text} :
    path ∈ (ofChanges changed content).newTests ↔ path ∈ changed ∧ isTestFile path := by
  rw [newTests_ofChanges, List.mem_filter, mem_distinct]

theorem sublist_distinct_of_mem {l : List Text}
    (hl : l ∈ [(ofChanges changed content).covered, (ofChanges changed content).uncovered,
      (ofChanges changed content).newTests]) :
    l.Sublist (distinct changed) := by
  have hsources : (ofChanges changed content).sourceFiles.Sublist (distinct changed) := by
    rw [sourceFiles_ofChanges]
    exact List.filter_sublist
  rw [covered_ofChanges, uncovered_ofChanges, newTests_ofChanges] at hl
  simp only [List.mem_cons, List.not_mem_nil, or_false] at hl
  obtain rfl | rfl | rfl := hl
  · exact List.filter_sublist.trans hsources
  · exact List.filter_sublist.trans hsources
  · exact List.filter_sublist

theorem mem_covered_ofChanges {path : Text} :
    path ∈ (ofChanges changed content).covered ↔
      path ∈ (ofChanges changed content).sourceFiles ∧
        isCovered path (distinct changed) content := by
  rw [covered_ofChanges, List.mem_filter]

theorem mem_uncovered_ofChanges {path : Text} :
    path ∈ (ofChanges changed content).uncovered ↔
      path ∈ (ofChanges changed content).sourceFiles ∧
        isCovered path (distinct changed) content = false := by
  rw [uncovered_ofChanges, List.mem_filter, Bool.not_eq_true']

theorem disjoint_sourceFiles_newTests :
    (ofChanges changed content).sourceFiles.Disjoint (ofChanges changed content).newTests := by
  intro path hsource htest
  have hnot := (isSourceFile_iff.1 ((mem_sourceFiles_ofChanges changed content).1 hsource).2).1
  have his := ((mem_newTests_ofChanges changed content).1 htest).2
  exact Bool.false_ne_true (hnot.symm.trans his)

theorem length_sourceFiles_ofChanges :
    (ofChanges changed content).sourceFiles.length = (ofChanges changed content).covered.length +
      (ofChanges changed content).uncovered.length := by
  rw [covered_ofChanges, uncovered_ofChanges]
  exact List.length_eq_length_filter_add _

theorem isPartition_ofChanges : (ofChanges changed content).IsPartition changed where
  disjoint := by
    have htests := disjoint_sourceFiles_newTests changed content
    refine ⟨fun path hc hu => ?_, fun path hc => ?_, fun path hu => ?_⟩
    · have hyes := ((mem_covered_ofChanges changed content).1 hc).2
      have hno := ((mem_uncovered_ofChanges changed content).1 hu).2
      exact Bool.false_ne_true (hno.symm.trans hyes)
    · exact htests ((mem_covered_ofChanges changed content).1 hc).1
    · exact htests ((mem_uncovered_ofChanges changed content).1 hu).1
  nodup l hl := (nodup_distinct changed).sublist (sublist_distinct_of_mem changed content hl)
  inOrder l hl :=
    (pairwise_idxOf_distinct changed).sublist (sublist_distinct_of_mem changed content hl)
  mem_newTests _ := mem_newTests_ofChanges changed content
  mem_sources path := by
    rw [← mem_sourceFiles_ofChanges changed content, mem_covered_ofChanges,
      mem_uncovered_ofChanges]
    cases isCovered path (distinct changed) content <;> simp [Xor]
  toJson_eq := by rw [toJson, length_sourceFiles_ofChanges]

end Report

/-- The lists of a report split the changed sources and tests, in the order of the changes. -/
theorem isPartition_of_mapTests {changed : List Text} {diff : Text} {r : Report}
    (h : mapTests changed diff = .ok r) : r.IsPartition changed := by
  obtain ⟨d, -, rfl⟩ := mapTests_eq_ok.1 h
  exact Report.isPartition_ofChanges changed (testText d)

theorem isPartition_of_mapTests_repeated :
    let changed := ["b.ts".toList, "a.ts".toList, "b.ts".toList, "b.test.ts".toList, "a.md".toList]
    ∃ r, mapTests changed [] = .ok r ∧ r.covered = ["b.ts".toList] ∧
      r.uncovered = ["a.ts".toList] ∧ r.newTests = ["b.test.ts".toList] ∧
      r.IsPartition changed := by
  intro changed
  have h : mapTests changed [] = .ok (Report.ofChanges changed (testText ⟨[]⟩)) := rfl
  exact ⟨_, h, by decide, by decide, by decide, isPartition_of_mapTests h⟩

end Coverage

end PatchReview
