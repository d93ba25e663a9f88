import Mathlib.Data.Prod.Basic
import PatchReview.Proofs.Pattern.Moves
import PatchReview.Proofs.Security.Findings

set_option autoImplicit false

namespace PatchReview

namespace Security

def Hit.moved (k : Nat) (h : Hit) : Hit := { h with line := h.line + k }

def Finding.moved (k : Nat) (f : Finding) : Finding := { f with line := f.line.map (· + k) }

/-- The second report is the first one with its findings `k` lines further down. -/
structure Report.IsMoved (k : Nat) (r r' : Report) : Prop where
  findings : r'.findings = r.findings.map (·.moved k)
  counts : ∀ s, r'.count s = r.count s
  summary : r'.toJson.member? "summary" = r.toJson.member? "summary"
  overall : r'.overall = r.overall
  headline : r'.headline = r.headline

theorem isLocal_pattern : ∀ r ∈ rules, r.pattern.isLocal := by decide

theorem lineAt_append (w code : Text) (offset : Nat) :
    lineAt (w ++ code) (offset + w.length) = lineAt code offset + w.count '\n' := by
  rw [lineAt, lineAt, Nat.add_comm offset, List.take_length_add_append, List.count_append]
  omega

theorem one_le_line_of_mem_hits {code : Text} {h : Hit} (hh : h ∈ hits code) : 1 ≤ h.line := by
  obtain ⟨s, -, hs⟩ := List.mem_map.1 (mem_hits.1 hh).2
  rw [← hs]
  exact Nat.le_add_left 1 _

theorem Report.isMoved_of_findings {k : Nat} {r r' : Report}
    (h : r'.findings = r.findings.map (·.moved k)) : IsMoved k r r' := by
  have hcounts (s : Severity) : r'.count s = r.count s := by
    rw [count, count, h, List.countP_map]
    rfl
  have hlength : r'.findings.length = r.findings.length := by rw [h, List.length_map]
  constructor
  case findings => exact h
  case counts => exact hcounts
  case summary => simp [toJson, Json.ofMembers, Json.member?, hcounts, hlength]
  case overall => simp only [overall, worst?, hcounts]
  case headline => simp only [headline, hcounts]

variable {w : Text} (hw : ∀ c ∈ w, isBlank c)
include hw

theorem hits_append_of_blanks (code : Text) :
    hits (w ++ code) = (hits code).map (·.moved (w.count '\n')) := by
  rw [hits, hits, List.map_flatMap]
  refine List.flatMap_congr fun r hr => ?_
  have hspans := Pattern.spans_append_of_blanks (isLocal_pattern r hr) (skipsBlanks_pattern r hr) hw
  rw [Rule.hits, Rule.hits, hspans, List.map_map, List.map_map]
  refine List.map_congr_left fun s _ => ?_
  simp only [Function.comp_apply, Span.moved, lineAt_append, Hit.moved]

theorem reported_append_of_blanks (code : Text) :
    reported (w ++ code) = (reported code).map (·.moved (w.count '\n')) := by
  have hinj : Function.Injective (Prod.map (id : Weakness → Weakness) (· + w.count '\n')) :=
    Function.Injective.prodMap Function.injective_id fun _ _ => Nat.add_right_cancel
  rw [reported, distinctBy, hits_append_of_blanks hw, distinctFrom_map]
  exact congrArg _ (distinctFrom_key_of_injective hinj Hit.key [] (hits code))

variable (hend : w.getLast? = some '\n')
include hend

omit hw in
theorem getD_lines_append (code : Text) (n : Nat) :
    (Text.lines (w ++ code)).getD (n + w.count '\n') [] = (Text.lines code).getD n [] := by
  obtain ⟨v, rfl⟩ := List.getLast?_eq_some_iff.1 hend
  have hlength : (Text.lines v).length = (v ++ ['\n']).count '\n' := by
    rw [Text.length_lines, List.count_append]
    rfl
  rw [List.append_assoc, List.singleton_append, Text.lines_append, List.getD_eq_getElem?_getD,
    List.getElem?_append_right (hlength ▸ Nat.le_add_left _ n), hlength, Nat.add_sub_cancel,
    List.getD_eq_getElem?_getD]

omit hw in
theorem finding_moved (code : Text) (file : Option Text) {h : Hit} (hline : 1 ≤ h.line) :
    (h.moved (w.count '\n')).finding (Text.lines (w ++ code)) file =
      (h.finding (Text.lines code) file).moved (w.count '\n') := by
  have hplace : h.line + w.count '\n' - 1 = h.line - 1 + w.count '\n' := by omega
  simp only [Hit.finding, Hit.moved, Finding.moved, snippet, hplace, getD_lines_append hend,
    Option.map_some]
  rfl

/-- Blank lines before code move the findings down by their number and change nothing else. -/
theorem isMoved_scan (code : Text) (file : Option Text) :
    Report.IsMoved (w.count '\n') (scan code file) (scan (w ++ code) file) := by
  refine Report.isMoved_of_findings ?_
  change (reported (w ++ code)).map _ = ((reported code).map _).map _
  rw [reported_append_of_blanks hw, List.map_map, List.map_map]
  refine List.map_congr_left fun h hh => ?_
  exact finding_moved hend code file (one_le_line_of_mem_hits (mem_hits_of_reported hh))

omit hw hend in
/-- A match at the very start of the code, two on one line, and a line separator among the blanks,
which ends no line. -/
theorem isMoved_scan_edge :
    let w := "\u2028 \n\t\r\n".toList
    let code := "eval(a)\nb.innerHTML = eval(c); eval(d)".toList
    ((scan (w ++ code) none).findings.map (·.line) = [some 4, some 3, some 4]) ∧
      Report.IsMoved 2 (scan code none) (scan (w ++ code) none) := by
  intro w code
  have hmoved : Report.IsMoved 2 (scan code none) (scan (w ++ code) none) :=
    isMoved_scan (w := w) (List.all_eq_true.1 (by decide)) (by decide) code none
  refine ⟨?_, hmoved⟩
  rw [hmoved.findings]
  decide

end Security

end PatchReview
