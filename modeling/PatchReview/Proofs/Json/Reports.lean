import PatchReview.Authorship.Detection
import PatchReview.Complexity.Analysis
import PatchReview.Coverage.Mapping
import PatchReview.Proofs.Json.RoundTrip
import PatchReview.Security.Report

set_option autoImplicit false

namespace PatchReview

namespace Json

theorem isWritable_ofMembers {l : List (String × Json)} (h : ∀ m ∈ l, m.2.IsWritable) :
    (ofMembers l).IsWritable := by
  refine .obj fun m hm => ?_
  obtain ⟨m', hm', rfl⟩ := List.mem_map.1 hm
  exact h m' hm'

theorem isWritable_ofPresent {l : List (String × Option Json)}
    (h : ∀ m ∈ l, ∀ v ∈ m.2, v.IsWritable) : (ofPresent l).IsWritable := by
  refine isWritable_ofMembers fun m hm => ?_
  obtain ⟨m', hm', hpresent⟩ := List.mem_filterMap.1 hm
  obtain ⟨v, hv, rfl⟩ := Option.map_eq_some_iff.1 hpresent
  exact h m' hm' v hv

theorem isWritable_texts (l : List Text) : (texts l).IsWritable := by
  refine .arr fun v hv => ?_
  obtain ⟨t, -, rfl⟩ := List.mem_map.1 hv
  exact .str t

theorem isWritable_ofString (s : String) : (ofString s).IsWritable := .str _

theorem isWritable_map {α : Type} {f : α → Json} {l : List α} (h : ∀ a ∈ l, (f a).IsWritable) :
    (arr (l.map f)).IsWritable := by
  refine .arr fun v hv => ?_
  obtain ⟨a, ha, rfl⟩ := List.mem_map.1 hv
  exact h a ha

def CountFits (n : Nat) : Prop := intFits n

theorem CountFits.mono {m n : Nat} (h : CountFits n) (hle : m ≤ n) : CountFits m := by
  simp only [CountFits, intFits, decide_eq_true_eq, Int.natAbs_natCast] at h ⊢
  exact Nat.lt_of_le_of_lt hle h

theorem isWritable_ofInt {n : Int} (h : intFits n) : (ofInt n).IsWritable := .num h

theorem isWritable_ofNat {n : Nat} (h : CountFits n) : (ofNat n).IsWritable := .num h

end Json

open Json

theorem Security.Finding.isWritable_toJson {f : Security.Finding} (h : ∀ n ∈ f.line, intFits n) :
    f.toJson.IsWritable := by
  refine isWritable_ofPresent ?_
  simp +contextual [IsWritable.str, isWritable_ofString, isWritable_ofInt, h]

theorem Security.Report.isWritable_toJson {r : Security.Report}
    (hcount : CountFits r.findings.length) (hline : ∀ f ∈ r.findings, ∀ n ∈ f.line, intFits n) :
    r.toJson.IsWritable := by
  have hfindings := isWritable_map fun f hf => Finding.isWritable_toJson (hline f hf)
  have hseverity : ∀ s, CountFits (r.count s) := fun s => hcount.mono List.countP_le_length
  have hsummary : (ofMembers [
      ("high", .ofNat (r.count .high)), ("medium", .ofNat (r.count .medium)),
      ("low", .ofNat (r.count .low)), ("total", .ofNat r.findings.length)]).IsWritable := by
    refine isWritable_ofMembers ?_
    simp [isWritable_ofNat, hseverity, hcount]
  refine isWritable_ofMembers ?_
  simp [hfindings, hsummary, IsWritable.str]

theorem Authorship.FlaggedSection.isWritable_toJson {s : Authorship.FlaggedSection}
    (h : intFits s.startLine ∧ intFits s.endLine) : s.toJson.IsWritable := by
  refine isWritable_ofMembers ?_
  simp [IsWritable.str, isWritable_ofInt, h]

theorem Authorship.Report.isWritable_toJson {r : Authorship.Report}
    (hconfidence : r.confidence.IsWritable)
    (hlines : ∀ s ∈ r.sections, intFits s.startLine ∧ intFits s.endLine) :
    r.toJson.IsWritable := by
  have hsections := isWritable_map fun s hs => FlaggedSection.isWritable_toJson (hlines s hs)
  refine isWritable_ofMembers ?_
  simp [IsWritable.num hconfidence, isWritable_ofString, isWritable_texts, hsections]

theorem Complexity.Hotspot.isWritable_toJson {h : Complexity.Hotspot}
    (hfit : intFits h.complexity ∧ ∀ n ∈ h.line, intFits n) : h.toJson.IsWritable := by
  refine isWritable_ofPresent ?_
  simp +contextual [IsWritable.str, isWritable_ofString, isWritable_ofInt, hfit.1, hfit.2]

theorem Complexity.Metrics.isWritable_toJson {m : Complexity.Metrics}
    (havg : m.avgCyclomatic.IsWritable) (hnesting : intFits m.maxNesting)
    (hlength : intFits m.avgLength) : m.toJson.IsWritable := by
  refine isWritable_ofMembers ?_
  simp [IsWritable.num havg, isWritable_ofInt, hnesting, hlength]

theorem Complexity.Report.isWritable_toJson {r : Complexity.Report}
    (hmetrics : r.metrics.toJson.IsWritable) (hcount : intFits r.functionCount)
    (hhotspots : ∀ h ∈ r.hotspots, intFits h.complexity ∧ ∀ n ∈ h.line, intFits n) :
    r.toJson.IsWritable := by
  have hspots := isWritable_map fun h hh => Hotspot.isWritable_toJson (hhotspots h hh)
  refine isWritable_ofMembers ?_
  simp [hmetrics, hspots, isWritable_ofInt hcount, IsWritable.str]

theorem Coverage.Report.isWritable_toJson {r : Coverage.Report}
    (hsources : CountFits r.sourceFiles.length) (hcovered : CountFits r.covered.length)
    (huncovered : CountFits r.uncovered.length) (hnew : CountFits r.newTests.length) :
    r.toJson.IsWritable := by
  have hsummary : (ofMembers [
      ("sourceFiles", .ofNat r.sourceFiles.length), ("coveredCount", .ofNat r.covered.length),
      ("uncoveredCount", .ofNat r.uncovered.length),
      ("newTestCount", .ofNat r.newTests.length)]).IsWritable := by
    refine isWritable_ofMembers ?_
    simp [isWritable_ofNat, hsources, hcovered, huncovered, hnew]
  refine isWritable_ofMembers ?_
  simp [isWritable_texts, hsummary, IsWritable.str]

inductive AnyReport where
  | security (r : Security.Report)
  | authorship (r : Authorship.Report)
  | complexity (r : Complexity.Report)
  | coverage (r : Coverage.Report)

namespace AnyReport

def toJson : AnyReport → Json
  | security r => r.toJson
  | authorship r => r.toJson
  | complexity r => r.toJson
  | coverage r => r.toJson

/-- The numbers of the report can be written, those of its list lengths included. -/
def IsWritable : AnyReport → Prop
  | security r => CountFits r.findings.length ∧ ∀ f ∈ r.findings, ∀ n ∈ f.line, intFits n
  | authorship r =>
    r.confidence.IsWritable ∧ ∀ s ∈ r.sections, intFits s.startLine ∧ intFits s.endLine
  | complexity r =>
    (r.metrics.avgCyclomatic.IsWritable ∧ intFits r.metrics.maxNesting ∧
        intFits r.metrics.avgLength) ∧
      intFits r.functionCount ∧
      ∀ h ∈ r.hotspots, intFits h.complexity ∧ ∀ n ∈ h.line, intFits n
  | coverage r =>
    CountFits r.sourceFiles.length ∧ CountFits r.covered.length ∧
      CountFits r.uncovered.length ∧ CountFits r.newTests.length

theorem IsWritable.toJson {r : AnyReport} (h : r.IsWritable) : r.toJson.IsWritable := by
  cases r with
  | security r => exact r.isWritable_toJson h.1 h.2
  | authorship r => exact r.isWritable_toJson h.1 h.2
  | complexity r =>
    obtain ⟨⟨havg, hnesting, hlength⟩, hcount, hhotspots⟩ := h
    exact r.isWritable_toJson (r.metrics.isWritable_toJson havg hnesting hlength) hcount hhotspots
  | coverage r => exact r.isWritable_toJson h.1 h.2.1 h.2.2.1 h.2.2.2

theorem render_toJson {r : AnyReport} (h : r.IsWritable) (indent : Option Nat) :
    Json.render indent r.toJson = .ok (r.toJson.write indent) :=
  if_pos h.toJson.fits

/-- The text of a report is read back as the report's value. So the text determines the value, and
every indent writes the same one. -/
theorem decode_render {r : AnyReport} (hr : r.IsWritable) (indent : Option Nat) :
    ∃ t, Json.render indent r.toJson = .ok t ∧ Json.read? t = some r.toJson ∧
      (∀ r' : AnyReport, r'.IsWritable → Json.render indent r'.toJson = .ok t →
        r'.toJson = r.toJson) ∧
      ∀ indent', ∃ t', Json.render indent' r.toJson = .ok t' ∧ Json.read? t' = Json.read? t := by
  refine ⟨_, render_toJson hr indent, read?_write hr.toJson indent, fun r' hr' heq => ?_,
    fun indent' => ⟨_, render_toJson hr indent', ?_⟩⟩
  · -- the two texts are one, so what is read from it is one value
    have htext := Except.ok.inj ((render_toJson hr' indent).symm.trans heq)
    have hread := read?_write hr'.toJson indent
    rw [htext, read?_write hr.toJson indent] at hread
    exact (Option.some.inj hread).symm
  · rw [read?_write hr.toJson indent', read?_write hr.toJson indent]

theorem decode_render_complexity :
    let r : AnyReport := complexity
      ⟨⟨.double (Binary64.nearest (9 / 20)), 0, -3⟩,
        [⟨"a\t\"b\\\x01\x7f".toList, [], 12, .high, none⟩, ⟨[], "f".toList, -1, .low, some 7⟩], 2⟩
    r.IsWritable ∧ ∃ t, Json.render (some 2) r.toJson = .ok t ∧ Json.read? t = some r.toJson ∧
      (∀ r' : AnyReport, r'.IsWritable → Json.render (some 2) r'.toJson = .ok t →
        r'.toJson = r.toJson) ∧
      ∀ indent', ∃ t', Json.render indent' r.toJson = .ok t' ∧ Json.read? t' = Json.read? t := by
  intro r
  have hr : r.IsWritable := by
    refine ⟨⟨trivial, ?_, ?_⟩, ?_, ?_⟩ <;> decide +kernel
  exact ⟨hr, decode_render hr (some 2)⟩

end AnyReport

end PatchReview
