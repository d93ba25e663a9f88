import Mathlib.Data.List.Infix
import PatchReview.Proofs.Security.Findings

/-!
Assignments of markup. The rule for them passes the blanks behind the sign and asks that no literal
markup follows, but a repetition gives blanks back, so one blank behind the sign is enough for a
match. Main statement: `reportsAssignment_of_isStatic`, of assignments of literal markup those are
reported that have a blank behind the sign.
-/

set_option autoImplicit false

namespace PatchReview

namespace Security

/-- The text begins with an assignment, and `value` stands behind its sign. -/
def IsAssignment (t value : Text) : Prop :=
  ∃ v, (∀ c ∈ v, isBlank c) ∧ t = "innerHTML".toList ++ (v ++ '=' :: value)

/-- A quote and the start of a tag come first. -/
def IsMarkup (t : Text) : Prop := ∃ q ∈ "'\"".toList, [q, '<'] <+: t

/-- Whatever is assigned is literal markup, behind any number of blanks. -/
def IsStatic (code : Text) : Prop :=
  ∀ x t value, code = x ++ t → IsAssignment t value → IsMarkup (Text.trimStart value)

def assigned? (t : Text) : Option Text :=
  if "innerHTML".toList.isPrefixOf t then
    match Text.trimStart (t.drop 9) with
    | '=' :: value => some value
    | _ => none
  else none

theorem isAssignment_iff {t value : Text} : IsAssignment t value ↔ assigned? t = some value := by
  constructor
  · rintro ⟨v, hv, rfl⟩
    have htrim : Text.trimStart (v ++ '=' :: value) = '=' :: value :=
      (Text.trimStart_append_of_blanks hv _).trans (Text.trimStart_eq_self rfl)
    have hdrop : ("innerHTML".toList ++ (v ++ '=' :: value)).drop 9 = v ++ '=' :: value := rfl
    have hpre : "innerHTML".toList.isPrefixOf ("innerHTML".toList ++ (v ++ '=' :: value)) := by simp
    rw [assigned?, if_pos hpre, hdrop, htrim]
    rfl
  · intro h
    rw [assigned?] at h
    split at h
    case isFalse => simp at h
    case isTrue hpre =>
      obtain ⟨u, rfl⟩ := List.isPrefixOf_iff_prefix.1 hpre
      have hdrop : ("innerHTML".toList ++ u).drop 9 = u := rfl
      rw [hdrop] at h
      split at h
      case h_1 htrim =>
        obtain rfl := Option.some.inj h
        refine ⟨u.takeWhile isBlank, fun _ => List.mem_takeWhile_imp, ?_⟩
        rw [← htrim, Text.trimStart, List.takeWhile_append_dropWhile]
      case h_2 => simp at h

instance (t : Text) : Decidable (IsMarkup t) :=
  decidable_of_iff ("'\"".toList.any fun q => [q, '<'].isPrefixOf t) <| by
    simp only [IsMarkup, List.any_eq_true, List.isPrefixOf_iff_prefix]

instance (code : Text) : Decidable (IsStatic code) :=
  decidable_of_iff (∀ t ∈ code.tails, ∀ value ∈ assigned? t, IsMarkup (Text.trimStart value)) <| by
    simp only [IsStatic, isAssignment_iff, List.mem_tails, Option.mem_def]
    constructor
    · exact fun h x t value hcode => h t ⟨x, hcode.symm⟩ value
    · exact fun h t ⟨x, hcode⟩ value => h x t value hcode.symm

def ReportsAssignment (r : Report) (line : Int) : Prop :=
  ∃ f ∈ r.findings, f.message = Rule.innerHtml.message.toList ∧ f.line = some line

open Pattern

theorem not_isMarkup_of_isBlank {c : Char} (hc : isBlank c) (t : Text) : ¬IsMarkup (c :: t) := by
  have hquotes : "'\"".toList.all (!isBlank ·) := by decide
  rintro ⟨q, hq, hpre⟩
  obtain ⟨rfl, -⟩ := List.cons_prefix_cons.1 hpre
  have hnot := List.all_eq_true.1 hquotes q hq
  rw [hc] at hnot
  exact absurd hnot (by decide)

theorem reads_markup {prev : Option Char} {w rest : Text} :
    (Rule.quote ++ lit "<").Reads prev w rest ↔ ∃ q ∈ "'\"".toList, w = [q, '<'] := by
  simp only [Rule.quote, reads_append, reads_lit, Reads, among, List.contains_iff_mem]
  constructor
  · rintro ⟨_, _, rfl, ⟨q, rfl, hq⟩, rfl⟩
    exact ⟨q, hq, rfl⟩
  · rintro ⟨q, hq, rfl⟩
    exact ⟨[q], ['<'], rfl, ⟨q, rfl, hq⟩, rfl⟩

theorem reads_notAhead_markup {prev : Option Char} {w rest : Text} :
    (notAhead (Rule.quote ++ lit "<")).Reads prev w rest ↔ w = [] ∧ ¬IsMarkup rest := by
  rw [Reads]
  refine and_congr_right fun _ => ?_
  simp only [reads_markup, IsMarkup]
  constructor
  · rintro h ⟨q, hq, v, rfl⟩
    exact h [q, '<'] v rfl ⟨q, hq, rfl⟩
  · rintro h u v rfl ⟨q, hq, rfl⟩
    exact h ⟨q, hq, v, rfl⟩

/-- The blanks behind the sign belong to the match as far as no markup comes behind them. -/
theorem reads_innerHtml {prev : Option Char} {w rest : Text} :
    Rule.innerHtml.pattern.Reads prev w rest ↔
      ∃ v v', (∀ c ∈ v, isBlank c) ∧ (∀ c ∈ v', isBlank c) ∧
        w = "innerHTML".toList ++ (v ++ '=' :: v') ∧ ¬IsMarkup rest := by
  have hblanks {prev : Option Char} {w rest : Text} :
      blanks.Reads prev w rest ↔ ∀ c ∈ w, isBlank c := Iff.rfl
  simp only [Rule.innerHtml]
  rw [reads_append]
  simp only [reads_notAhead_markup, reads_append, reads_lit, hblanks]
  constructor
  · rintro ⟨_, _, rfl, ⟨_, v', rfl, ⟨_, _, rfl, ⟨_, v, rfl, rfl, hv⟩, rfl⟩, hv'⟩, rfl, hrest⟩
    exact ⟨v, v', hv, hv', by simp, hrest⟩
  · rintro ⟨v, v', hv, hv', rfl, hrest⟩
    exact ⟨_, [], (List.append_nil _).symm, ⟨"innerHTML".toList ++ v ++ ['='], v', by simp,
      ⟨_, ['='], rfl, ⟨_, v, rfl, rfl, hv⟩, rfl⟩, hv'⟩, rfl, hrest⟩

theorem starts_innerHtml {prev : Option Char} {t : Text} :
    Rule.innerHtml.pattern.Starts prev t ↔ ∃ value, IsAssignment t value ∧ ¬IsMarkup value := by
  simp only [Starts, reads_innerHtml]
  constructor
  · rintro ⟨_, rest, rfl, v, v', hv, hv', rfl, hrest⟩
    refine ⟨v' ++ rest, ⟨v, hv, by simp⟩, ?_⟩
    cases v' with
    | nil => exact hrest
    | cons c v' => exact not_isMarkup_of_isBlank (hv' c List.mem_cons_self) _
  · rintro ⟨value, ⟨v, hv, rfl⟩, hvalue⟩
    exact ⟨"innerHTML".toList ++ (v ++ ['=']), value, by simp, v, [], hv, by simp, rfl, hvalue⟩

theorem exists_cons_of_reads {prev : Option Char} {w rest : Text}
    (h : Rule.innerHtml.pattern.Reads prev w rest) : ∃ u, w = 'i' :: u ∧ 'i' ∉ u := by
  obtain ⟨v, v', hv, hv', rfl, -⟩ := reads_innerHtml.1 h
  have hblank {u : Text} (hu : ∀ c ∈ u, isBlank c) : 'i' ∉ u :=
    fun hmem => absurd (hu _ hmem) (by decide)
  refine ⟨"nnerHTML".toList ++ (v ++ '=' :: v'), rfl, ?_⟩
  simp [hblank hv, hblank hv']

theorem mem_spans_innerHtml_iff {x t : Text} :
    (∃ s ∈ Rule.innerHtml.pattern.spans (x ++ t), s.start = x.length) ↔
      ∃ value, IsAssignment t value ∧ ¬IsMarkup value :=
  (exists_span_at_iff exists_cons_of_reads).trans starts_innerHtml

/-- A rule that no other shares its message with and that comes first of its type is reported for
every line on which a match of it begins. -/
theorem exists_finding_of_rule_iff {i : Fin rules.length}
    (hmessage : ∀ j, (rules.get j).message = (rules.get i).message → j = i)
    (hfirst : ∀ j, (rules.get j).weakness = (rules.get i).weakness → i ≤ j) (code : Text)
    (file : Option Text) (line : Int) :
    (∃ f ∈ (scan code file).findings,
        f.message = (rules.get i).message.toList ∧ f.line = some line) ↔
      ∃ s ∈ (rules.get i).pattern.spans code, (lineAt code s.start : Int) = line := by
  simp only [Match.findings_scan, List.mem_map]
  constructor
  · rintro ⟨_, ⟨m, hm, rfl⟩, hsame, hline⟩
    have hplace : m.place = i := hmessage _ (String.toList_inj.1 hsame)
    exact ⟨m.span, hplace ▸ Match.in_of_mem_kept hm, Option.some.inj hline⟩
  · rintro ⟨s, hs, rfl⟩
    have hin : Match.In code ⟨i, s⟩ := hs
    obtain ⟨m, hm, htype, hline⟩ := Match.exists_kept hin
    have hle : m.place ≤ i := (Match.isFirst_of_mem_kept hm).2 _ hin htype.symm hline.symm
    have hplace : m.place = i := Fin.le_antisymm hle (hfirst _ (Weakness.name_inj htype))
    refine ⟨_, ⟨m, hm, rfl⟩, ?_, congrArg (fun n : Nat => some (n : Int)) hline⟩
    rw [Match.finding, Match.rule, hplace]

theorem reportsAssignment_iff (code : Text) (file : Option Text) (line : Int) :
    ReportsAssignment (scan code file) line ↔
      ∃ x t value, code = x ++ t ∧ IsAssignment t value ∧ ¬IsMarkup value ∧
        line = x.count '\n' + 1 := by
  let own : Fin rules.length := ⟨8, by decide⟩
  have hspans := exists_finding_of_rule_iff (i := own) (by decide) (by decide) code file line
  refine hspans.trans ?_
  constructor
  · rintro ⟨s, hs, rfl⟩
    obtain ⟨x, w, rest, rfl, hstart, -, -⟩ := exists_of_mem_spans hs
    obtain ⟨value, hassign, hvalue⟩ := mem_spans_innerHtml_iff.1 ⟨s, hs, hstart⟩
    refine ⟨x, w ++ rest, value, rfl, hassign, hvalue, ?_⟩
    rw [lineAt, hstart, List.take_left]
    rfl
  · rintro ⟨x, t, value, rfl, hassign, hvalue, rfl⟩
    obtain ⟨s, hs, hstart⟩ := mem_spans_innerHtml_iff.2 ⟨value, hassign, hvalue⟩
    refine ⟨s, hs, ?_⟩
    rw [lineAt, hstart, List.take_left]
    rfl

theorem not_isMarkup_iff {value : Text} (h : IsMarkup (Text.trimStart value)) :
    ¬IsMarkup value ↔ value.head?.any isBlank := by
  cases value with
  | nil => exact iff_of_false (fun hnot => hnot h) Bool.false_ne_true
  | cons c value =>
    change _ ↔ isBlank c = true
    refine ⟨fun hnot => ?_, fun hc => not_isMarkup_of_isBlank hc value⟩
    by_contra hc
    rw [Text.trimStart_eq_self (by simpa using hc)] at h
    exact hnot h

/-- Of assignments of literal markup those are reported that have a blank right behind the sign,
whatever stands before it, so that none is reported if and only if no sign has one behind it. -/
theorem reportsAssignment_of_isStatic {code : Text} (h : IsStatic code) (file : Option Text) :
    (∀ line, ReportsAssignment (scan code file) line ↔
      ∃ x t value, code = x ++ t ∧ IsAssignment t value ∧ value.head?.any isBlank ∧
        line = x.count '\n' + 1) ∧
    ((∀ f ∈ (scan code file).findings, f.message ≠ Rule.innerHtml.message.toList) ↔
      ∀ x t value, code = x ++ t → IsAssignment t value → value.head?.any isBlank = false) := by
  have hlines (line : Int) : ReportsAssignment (scan code file) line ↔
      ∃ x t value, code = x ++ t ∧ IsAssignment t value ∧ value.head?.any isBlank ∧
        line = x.count '\n' + 1 := by
    rw [reportsAssignment_iff]
    constructor
    · rintro ⟨x, t, value, hcode, hassign, hvalue, hline⟩
      exact ⟨x, t, value, hcode, hassign, (not_isMarkup_iff (h x t value hcode hassign)).1 hvalue,
        hline⟩
    · rintro ⟨x, t, value, hcode, hassign, hblank, hline⟩
      exact ⟨x, t, value, hcode, hassign, (not_isMarkup_iff (h x t value hcode hassign)).2 hblank,
        hline⟩
  refine ⟨hlines, ?_⟩
  constructor
  · intro hnone x t value hcode hassign
    rw [← Bool.not_eq_true]
    intro hblank
    obtain ⟨f, hf, hmessage, -⟩ := (hlines _).2 ⟨x, t, value, hcode, hassign, hblank, rfl⟩
    exact hnone f hf hmessage
  · intro hnone f hf hmessage
    have hf' := hf
    rw [Match.findings_scan] at hf'
    obtain ⟨m, -, rfl⟩ := List.mem_map.1 hf'
    obtain ⟨x, t, value, hcode, hassign, hblank, -⟩ := (hlines _).1 ⟨_, hf, hmessage, rfl⟩
    rw [hnone x t value hcode hassign] at hblank
    exact Bool.false_ne_true hblank

/-- The second sign has a blank behind it, the first one before it. -/
theorem reportsAssignment_of_isStatic_second :
    let code := "a.innerHTML\t=\"<i>\"\nb.innerHTML=\t'<b>'".toList
    IsStatic code ∧ ReportsAssignment (scan code none) 2 ∧
      (scan code none).findings.map (·.line) = [some 2] := by
  intro code
  have hstatic : IsStatic code := by decide
  have hreports : ReportsAssignment (scan code none) 2 :=
    ((reportsAssignment_of_isStatic hstatic none).1 2).2
      ⟨"a.innerHTML\t=\"<i>\"\nb.".toList, "innerHTML=\t'<b>'".toList, "\t'<b>'".toList, rfl,
        ⟨[], by simp, rfl⟩, rfl, rfl⟩
  exact ⟨hstatic, hreports, by decide⟩

/-- A blank behind the sign makes the difference, although what is assigned is literal. -/
theorem isStatic_reported :
    let code := "el.innerHTML = '<b>hi</b>';".toList
    let dense := "el.innerHTML ='<b>hi</b>';".toList
    IsStatic code ∧ ReportsAssignment (scan code none) 1 ∧
      IsStatic dense ∧ (scan dense none).findings = [] := by
  refine ⟨by decide, ?_, by decide, by decide⟩
  exact ⟨_, List.mem_singleton_self _, rfl, rfl⟩

end Security

end PatchReview
