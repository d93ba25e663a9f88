import PatchReview.Authorship.Detection
import PatchReview.Coverage.Mapping
import PatchReview.Proofs.Authorship.Marks
import PatchReview.Proofs.Coverage.Mentions
import PatchReview.Proofs.Coverage.Names
import PatchReview.Proofs.Diff.Order

/-!
The order of the sections of a diff. What is measured of a diff is a sum over its sections, what is
asked of it is asked of each file, and no match goes over the seam of two sections. Main statement:
`reports_agree_of_perm`.
-/

set_option autoImplicit false

namespace PatchReview

-- Sums start at the zero of core in every context.
attribute [local instance (2000)] Zero.ofOfNat0

open Diff

namespace Pattern

theorem count_flatten {p : Pattern} (hp : p.isPlain)
    (hseam : ∀ {s t : Text}, s.getLast? = some '\n' → isGitMark t → p.PartsAt s t) {ss : List Text}
    (h : ∀ s ∈ ss, IsGitText s) : p.count ss.flatten = (ss.map p.count).sum := by
  induction ss with
  | nil => rfl
  | cons s ss ih =>
    have hss : ∀ m ∈ ss, IsGitText m := fun m hm => h m (List.mem_cons_of_mem s hm)
    have hparts : p.PartsAt s ss.flatten := by
      cases ss with
      | nil => exact fun u v prev rest _ hv _ hpre => absurd (List.prefix_nil.1 hpre) hv
      | cons m ms => exact hseam (h s List.mem_cons_self).ends (isGitMark_flatten hss)
    rw [List.flatten_cons, count_append hp hparts, ih hss, List.map_cons, List.sum_cons]

end Pattern

namespace Authorship

variable {ss ss' : List Text} (hperm : ss.Perm ss') (h : ∀ s ∈ ss, IsGitText s)

theorem Evidence.signals_congr (e : Evidence) {sections : List FlaggedSection}
    (hempty : sections.isEmpty = e.sections.isEmpty) :
    ({ e with sections := sections } : Evidence).signals = e.signals := by
  rw [signals, signals, hempty]
  rfl

theorem Report.ofEvidence_congr (e : Evidence) {sections : List FlaggedSection}
    (hempty : sections.isEmpty = e.sections.isEmpty) :
    ofEvidence { e with sections := sections } = { ofEvidence e with sections := sections } := by
  rw [ofEvidence, ofEvidence, e.signals_congr hempty]

include hperm in
theorem countComments_perm (mark : Bool → Pattern) :
    countComments ⟨ss.flatMap filesOf⟩ mark = countComments ⟨ss'.flatMap filesOf⟩ mark :=
  ((hperm.flatMap_right filesOf).map _).sum_nat

include hperm h in
theorem count_flatten_perm {p : Pattern} (hp : p.isPlain)
    (hseam : ∀ {s t : Text}, s.getLast? = some '\n' → isGitMark t → p.PartsAt s t) :
    p.count ss.flatten = p.count ss'.flatten := by
  have h' : ∀ s ∈ ss', IsGitText s := fun s hs => h s (hperm.mem_iff.2 hs)
  rw [Pattern.count_flatten hp hseam h, Pattern.count_flatten hp hseam h']
  exact (hperm.map _).sum_nat

def sectionsOf (commits : Int) (s : Text) : List FlaggedSection :=
  match detect s commits with
  | .ok r => r.sections
  | .error _ => []

theorem sectionsOf_eq (commits : Int) (s : Text) :
    sectionsOf commits s = (filesOf s).flatMap flaggedSections := by
  rw [sectionsOf, detect, filesOf]
  cases Document.parse s <;> rfl

theorem flaggedSections_flatMap (commits : Int) (ss : List Text) :
    (ss.flatMap filesOf).flatMap flaggedSections = ss.flatMap (sectionsOf commits) := by
  rw [List.flatMap_assoc]
  congr 1
  funext s
  exact (sectionsOf_eq commits s).symm

include hperm h in
/-- The evidence of sections in two orders differs in the order of what is flagged. -/
theorem ofDocument_perm (commits : Int) :
    Evidence.ofDocument ⟨ss.flatMap filesOf⟩ ss.flatten commits =
      { Evidence.ofDocument ⟨ss'.flatMap filesOf⟩ ss'.flatten commits with
        sections := ss.flatMap (sectionsOf commits) } := by
  have hfiles := hperm.flatMap_right filesOf
  have hadd : (Document.mk (ss.flatMap filesOf)).additionCount =
      (Document.mk (ss'.flatMap filesOf)).additionCount := (hfiles.map _).sum_nat
  have hdel : (Document.mk (ss.flatMap filesOf)).deletionCount =
      (Document.mk (ss'.flatMap filesOf)).deletionCount := (hfiles.map _).sum_nat
  rw [Evidence.ofDocument, Evidence.ofDocument, hadd, hdel, countComments_perm hperm,
    countComments_perm hperm, count_flatten_perm hperm h (by decide) partsAt_genericName,
    count_flatten_perm hperm h (by decide) partsAt_placeholder, flaggedSections_flatMap commits]

/-- Reports on sections in two orders that differ in the order of what is flagged alone. -/
structure SameUpToOrder (commits : Int) (ss ss' : List Text) (r r' : Report) : Prop where
  confidence : r.confidence = r'.confidence
  risk : r.risk = r'.risk
  signals : r.signals = r'.signals
  sections : r.sections = ss.flatMap (sectionsOf commits)
  sections' : r'.sections = ss'.flatMap (sectionsOf commits)

include hperm h in
theorem agree_detect (commits : Int) :
    Agree (SameUpToOrder commits ss ss') (detect ss.flatten commits)
      (detect ss'.flatten commits) := by
  refine (agree_parse_flatten hperm h).bind fun d d' ⟨hd, hd'⟩ => ?_
  obtain ⟨files⟩ := d
  obtain ⟨files'⟩ := d'
  obtain rfl : files = ss.flatMap filesOf := hd
  obtain rfl : files' = ss'.flatMap filesOf := hd'
  have hsections : (Evidence.ofDocument ⟨ss'.flatMap filesOf⟩ ss'.flatten commits).sections =
      ss'.flatMap (sectionsOf commits) := flaggedSections_flatMap commits ss'
  rw [ofDocument_perm hperm h]
  generalize Evidence.ofDocument ⟨ss'.flatMap filesOf⟩ ss'.flatten commits = e at hsections ⊢
  have hempty : (ss.flatMap (sectionsOf commits)).isEmpty = e.sections.isEmpty := by
    rw [hsections, (hperm.flatMap_right (sectionsOf commits)).isEmpty_eq]
  rw [Report.ofEvidence_congr e hempty]
  exact ⟨rfl, rfl, rfl, rfl, hsections⟩

end Authorship

namespace Coverage

theorem newline_notMem_baseName {path : Text} (h : '\n' ∉ path) : '\n' ∉ Path.baseName path :=
  fun hin => h ((Text.afterLast_suffix path).subset (List.mem_of_mem_take hin))

theorem Report.ofChanges_congr {changed : List Text} {content content' : Text}
    (h : ∀ path ∈ changed, mentions (Text.lower content) (Path.baseName path) =
      mentions (Text.lower content') (Path.baseName path)) :
    ofChanges changed content = ofChanges changed content' := by
  have htest : ∀ s ∈ (distinct changed).filter isSourceFile,
      hasTest s (distinct changed) (Text.lower content) =
        hasTest s (distinct changed) (Text.lower content') := fun s hs => by
    rw [hasTest, hasTest, h s (mem_distinct.1 (List.mem_of_mem_filter hs))]
  have hnot := fun s hs => congrArg not (htest s hs)
  simp only [ofChanges, List.partition_eq_filter_filter]
  rw [List.filter_congr htest]
  exact congrArg (Report.mk _ _ · _ _) (List.filter_congr hnot)

theorem mentions_testText {name : Text} (h : '\n' ∉ name) (d : Document) :
    mentions (Text.lower (testText d)) name ↔
      ∃ f ∈ d.files, touchesTest f ∧ mentions (Text.lower f.text) name := by
  rw [testText, mentions_lower_unlines h]
  simp only [List.mem_map, List.mem_filter]
  constructor
  · rintro ⟨_, ⟨f, ⟨hf, htest⟩, rfl⟩, hm⟩
    exact ⟨f, hf, htest, hm⟩
  · rintro ⟨f, hf, htest, hm⟩
    exact ⟨_, ⟨f, ⟨hf, htest⟩, rfl⟩, hm⟩

theorem agree_mapTests {ss ss' : List Text} (hperm : ss.Perm ss') (h : ∀ s ∈ ss, IsGitText s)
    {changed : List Text} (hchanged : ∀ path ∈ changed, '\n' ∉ path) :
    Agree (· = ·) (mapTests changed ss.flatten) (mapTests changed ss'.flatten) := by
  refine (agree_parse_flatten hperm h).bind fun d d' ⟨hd, hd'⟩ => ?_
  refine Report.ofChanges_congr fun path hpath => ?_
  have hname := newline_notMem_baseName (hchanged path hpath)
  have hfiles := hperm.flatMap_right filesOf
  rw [Bool.eq_iff_iff, mentions_testText hname, mentions_testText hname, hd, hd']
  simp only [hfiles.mem_iff]

end Coverage

/-- Sections of a diff in another order are reported alike: with the same confidence, risk and
signals, the flagged sections in the order of the diff, and the same coverage. -/
theorem reports_agree_of_perm {ss ss' : List Text} (hperm : ss.Perm ss')
    (h : ∀ s ∈ ss, IsGitText s) :
    (∀ commits : Int, Agree (Authorship.SameUpToOrder commits ss ss')
      (Authorship.detect ss.flatten commits) (Authorship.detect ss'.flatten commits)) ∧
    ∀ changed : List Text, (∀ path ∈ changed, '\n' ∉ path) →
      Agree (· = ·) (Coverage.mapTests changed ss.flatten)
        (Coverage.mapTests changed ss'.flatten) :=
  ⟨Authorship.agree_detect hperm h, fun _ => Coverage.agree_mapTests hperm h⟩

/-- A keyword at the end of a section, and a test that mentions a source. -/
theorem reports_agree_of_perm_two :
    let first := "diff --git a/x.ts b/x.ts\n+++ b/x.ts\n@@ -0,0 +1 @@\n+def \n".toList
    let second := "diff --git a/t_test.c b/t_test.c\n+++ b/t_test.c\n@@ -0,0 +1 @@\n+X()\n".toList
    Agree (Authorship.SameUpToOrder 1 [first, second] [second, first])
      (Authorship.detect [first, second].flatten 1) (Authorship.detect [second, first].flatten 1) ∧
    Agree (· = ·) (Coverage.mapTests ["x.ts".toList] [first, second].flatten)
      (Coverage.mapTests ["x.ts".toList] [second, first].flatten) ∧
    ∃ r, Coverage.mapTests ["x.ts".toList] [first, second].flatten = .ok r ∧
      r.covered = ["x.ts".toList] := by
  intro first second
  have hfirst : IsGitText first := ⟨by decide, by decide⟩
  have hsecond : IsGitText second := ⟨by decide, by decide⟩
  have h : ∀ s ∈ [first, second], IsGitText s :=
    List.forall_mem_cons.2 ⟨hfirst, List.forall_mem_singleton.2 hsecond⟩
  have hcovered : ∃ r, Coverage.mapTests ["x.ts".toList] [first, second].flatten = .ok r ∧
      r.covered = ["x.ts".toList] := ⟨_, rfl, by decide +kernel⟩
  clear_value first second
  have hpair := reports_agree_of_perm (List.Perm.swap second first []) h
  have hchanged : ∀ path ∈ ["x.ts".toList], '\n' ∉ path := by decide
  exact ⟨hpair.1 1, hpair.2 _ hchanged, hcovered⟩

end PatchReview
