import PatchReview.Proofs.Pattern.Matches
import PatchReview.Security.Scan

/-!
The overall assessment of a scan. The hit that is reported for a line and a weakness comes from the
earliest rule that has one, so the assessment is the worst severity of all rules that occur, as
long as no rule of a weakness stands behind a milder one. One does: `document.write` behind
`dangerouslySetInnerHTML`.
-/

set_option autoImplicit false

namespace PatchReview

namespace Severity

def rank : Severity → Nat
  | high => 0
  | medium => 1
  | low => 2

theorem rank_inj {s s' : Severity} (h : s.rank = s'.rank) : s = s' := by
  cases s <;> cases s' <;> first | rfl | cases h

end Severity

namespace Security

theorem minLength_pattern_pos : ∀ r ∈ rules, 0 < r.pattern.minLength := by decide

/-- All rules of a weakness have one severity, those for injected markup apart. -/
theorem severity_eq_of_weakness_eq : ∀ r ∈ rules, ∀ r' ∈ rules, r.weakness = r'.weakness →
    r.weakness ≠ .xss → r.severity = r'.severity := by decide

theorem mem_rules_xss {r : Rule} (hr : r ∈ rules) (hw : r.weakness = .xss) :
    r = .innerHtml ∨ r = .dangerousHtml ∨ r = .documentWrite := by
  have hmem : r ∈ rules.filter (·.weakness == .xss) := List.mem_filter.2 ⟨hr, by simp [hw]⟩
  have hlist : rules.filter (·.weakness == .xss) = [.innerHtml, .dangerousHtml, .documentWrite] :=
    rfl
  simpa [hlist] using hmem

theorem rule_of_mem_hits {r : Rule} {code : Text} {h : Hit} (hh : h ∈ r.hits code) :
    h.rule = r := by
  obtain ⟨s, -, rfl⟩ := List.mem_map.1 hh
  rfl

theorem mem_hits {code : Text} {h : Hit} :
    h ∈ hits code ↔ h.rule ∈ rules ∧ h ∈ h.rule.hits code := by
  rw [hits, List.mem_flatMap]
  constructor
  · rintro ⟨r, hr, hh⟩
    rw [rule_of_mem_hits hh]
    exact ⟨hr, hh⟩
  · exact fun ⟨hr, hh⟩ => ⟨h.rule, hr, hh⟩

theorem hits_eq_nil_iff {r : Rule} (hr : r ∈ rules) (code : Text) :
    r.hits code = [] ↔ r.pattern.occurs code = false := by
  rw [Rule.hits, List.map_eq_nil_iff, Pattern.spans_eq_nil_iff (minLength_pattern_pos r hr)]

def reported (code : Text) : List Hit := distinctBy Hit.key (hits code)

theorem mem_hits_of_reported {code : Text} {h : Hit} (hh : h ∈ reported code) : h ∈ hits code :=
  (distinctFrom_sublist Hit.key [] (hits code)).subset hh

theorem exists_reported {code : Text} {h : Hit} (hh : h ∈ hits code) :
    ∃ g ∈ reported code, g.key = h.key := by
  have hkey : h.key ∈ (distinctFrom Hit.key [] (hits code)).map Hit.key :=
    (mem_map_key_distinctFrom Hit.key [] (hits code) h.key).2 ⟨List.mem_map_of_mem hh, by simp⟩
  obtain ⟨g, hg, he⟩ := List.mem_map.1 hkey
  exact ⟨g, hg, he⟩

/-- A hit that is reported comes from none of the rules behind one that has a hit of its key. -/
theorem rule_mem_take_of_reported {code : Text} {g h : Hit} {k : Nat} (hg : g ∈ reported code)
    (hh : h ∈ hits code) (hk : h.rule ∈ rules.take k) (he : g.key = h.key) :
    g.rule ∈ rules.take k := by
  have hfirst : h ∈ (rules.take k).flatMap (·.hits code) :=
    List.mem_flatMap.2 ⟨h.rule, hk, (mem_hits.1 hh).2⟩
  have hsplit : hits code =
      (rules.take k).flatMap (·.hits code) ++ (rules.drop k).flatMap (·.hits code) := by
    rw [← List.flatMap_append, List.take_append_drop]
    rfl
  have hfind := find?_of_mem_distinctBy hg
  rw [hsplit, List.find?_append] at hfind
  -- The search ends among the first rules, because `h` is found there at the latest.
  obtain ⟨g', hg'⟩ :
      ∃ g', ((rules.take k).flatMap (·.hits code)).find? (·.key == g.key) = some g' :=
    Option.isSome_iff_exists.1 (List.find?_isSome.2 ⟨h, hfirst, by simp [he]⟩)
  rw [hg', Option.some_or, Option.some.injEq] at hfind
  subst hfind
  obtain ⟨r, hr, hgr⟩ := List.mem_flatMap.1 (List.mem_of_find?_eq_some hg')
  exact rule_of_mem_hits hgr ▸ hr

/-- The rule occurs, and for `document.write` on a line without `dangerouslySetInnerHTML`. -/
def Rule.Counts (r : Rule) (code : Text) : Prop :=
  r.pattern.occurs code ∧
    (r = .documentWrite →
      ∃ h ∈ r.hits code, ∀ g ∈ Rule.dangerousHtml.hits code, g.line ≠ h.line)

theorem counts_of_reported {code : Text} {g : Hit} (hg : g ∈ reported code) :
    g.rule.Counts code := by
  obtain ⟨hr, hin⟩ := mem_hits.1 (mem_hits_of_reported hg)
  constructor
  · rw [← Bool.not_eq_false, ← hits_eq_nil_iff hr]
    exact List.ne_nil_of_mem hin
  · intro hw
    refine ⟨g, hin, fun h hh he => ?_⟩
    have hrule := rule_of_mem_hits hh
    have hkey : g.key = h.key := by simp [Hit.key, hw, hrule, he]; rfl
    have hmem : h ∈ hits code := mem_hits.2 ⟨hrule ▸ by simp [rules], hrule.symm ▸ hh⟩
    have htake := rule_mem_take_of_reported (k := 10) hg hmem (hrule ▸ by simp [rules]) hkey
    have hmsg : ∀ r ∈ rules.take 10, r.message ≠ Rule.documentWrite.message := by decide
    exact hmsg _ htake (congrArg Rule.message hw)

theorem exists_hit_of_counts {r : Rule} (hr : r ∈ rules) {code : Text} (h : r.Counts code) :
    ∃ h ∈ r.hits code,
      r = .documentWrite → ∀ g ∈ Rule.dangerousHtml.hits code, g.line ≠ h.line := by
  obtain ⟨hocc, hwrite⟩ := h
  by_cases hw : r = .documentWrite
  · obtain ⟨h, hh, halone⟩ := hwrite hw
    exact ⟨h, hh, fun _ => halone⟩
  · have hne : r.hits code ≠ [] := by
      rw [Ne, hits_eq_nil_iff hr, hocc]
      simp
    obtain ⟨h, hh⟩ := List.exists_mem_of_ne_nil _ hne
    exact ⟨h, hh, fun he => absurd he hw⟩

theorem exists_reported_of_counts {r : Rule} (hr : r ∈ rules) {code : Text} (h : r.Counts code) :
    ∃ g ∈ reported code, g.rule.severity.rank ≤ r.severity.rank := by
  obtain ⟨h, hh, halone⟩ := exists_hit_of_counts hr h
  have hrule := rule_of_mem_hits hh
  have hmem : h ∈ hits code := mem_hits.2 ⟨hrule ▸ hr, hrule.symm ▸ hh⟩
  obtain ⟨g, hg, hkey⟩ := exists_reported hmem
  obtain ⟨hgr, hgin⟩ := mem_hits.1 (mem_hits_of_reported hg)
  have hweak : g.rule.weakness = r.weakness := hrule ▸ congrArg Prod.fst hkey
  have hline : g.line = h.line := congrArg Prod.snd hkey
  refine ⟨g, hg, ?_⟩
  by_cases hx : r.weakness = .xss
  · rcases mem_rules_xss hgr (hweak.trans hx) with hgi | hgd | hgw
    · rw [hgi]
      exact Nat.zero_le _
    · rcases mem_rules_xss hr hx with rfl | rfl | rfl
      · -- The rule for `innerHTML` stands in front of the one that is reported.
        have htake := rule_mem_take_of_reported (k := 9) hg hmem (hrule ▸ by simp [rules]) hkey
        have hmsg : ∀ r ∈ rules.take 9, r.message ≠ Rule.dangerousHtml.message := by decide
        exact absurd (congrArg Rule.message hgd) (hmsg _ htake)
      · exact Nat.le_of_eq (congrArg (·.severity.rank) hgd)
      · exact absurd hline (halone rfl g (hgd ▸ hgin))
    · rw [hgw]
      exact Nat.zero_le _
  · have hsev := severity_eq_of_weakness_eq r hr _ hgr hweak.symm hx
    exact Nat.le_of_eq (congrArg Severity.rank hsev).symm

theorem count_scan_pos_iff {code : Text} {file : Option Text} {s : Severity} :
    0 < (scan code file).count s ↔ ∃ g ∈ reported code, g.rule.severity = s := by
  rw [Report.count, List.countP_pos_iff]
  simp only [scan, List.mem_map, beq_iff_eq]
  constructor
  · rintro ⟨_, ⟨g, hg, rfl⟩, hs⟩
    exact ⟨g, hg, hs⟩
  · rintro ⟨g, hg, hs⟩
    exact ⟨_, ⟨g, hg, rfl⟩, hs⟩

theorem Report.worst?_eq_some_iff {r : Report} {s : Severity} :
    r.worst? = some s ↔ 0 < r.count s ∧ ∀ s', 0 < r.count s' → s.rank ≤ s'.rank := by
  have hall : (∀ s', 0 < r.count s' → s.rank ≤ s'.rank) ↔
      (0 < r.count .high → s.rank ≤ 0) ∧ (0 < r.count .medium → s.rank ≤ 1) ∧
        (0 < r.count .low → s.rank ≤ 2) :=
    ⟨fun h => ⟨h .high, h .medium, h .low⟩, fun ⟨h, m, l⟩ s' => by cases s' <;> assumption⟩
  rw [hall, worst?, Severity.all]
  cases s <;> simp only [List.find?_cons, List.find?_nil, Severity.rank] <;> grind

theorem Report.overall_eq_name_iff {r : Report} {s : Severity} :
    r.overall = s.name ↔ r.worst? = some s := by
  rw [overall]
  cases hw : r.worst? with
  | none => cases s <;> simp [Severity.name]
  | some s' => cases s <;> cases s' <;> simp [Severity.name]

theorem Report.overall_eq_clean_iff {r : Report} : r.overall = "clean" ↔ r.findings = [] := by
  have hnone : r.worst? = none ↔ r.findings = [] := by
    simp only [worst?, List.find?_eq_none, count]
    constructor
    · intro h
      rw [List.eq_nil_iff_forall_not_mem]
      intro f hf
      have hall : f.severity ∈ Severity.all := by cases f.severity <;> simp [Severity.all]
      have hpos : 0 < r.findings.countP (·.severity == f.severity) :=
        List.countP_pos_iff.2 ⟨f, hf, by simp⟩
      exact h _ hall (by simpa using hpos)
    · intro h
      simp [h]
  rw [← hnone, overall]
  cases hw : r.worst? with
  | none => simp
  | some s => cases s <;> simp [Severity.name]

theorem findings_scan_eq_nil_iff {code : Text} {file : Option Text} :
    (scan code file).findings = [] ↔ ∀ r ∈ rules, r.pattern.occurs code = false := by
  have hnil : (scan code file).findings = [] ↔ hits code = [] := by
    rw [scan, List.map_eq_nil_iff]
    constructor
    · intro h
      rw [List.eq_nil_iff_forall_not_mem]
      intro g hg
      obtain ⟨g', hg', -⟩ := exists_reported hg
      rw [reported, h] at hg'
      simp at hg'
    · intro h
      rw [h]
      rfl
  rw [hnil, hits, List.flatMap_eq_nil_iff]
  exact forall₂_congr fun r hr => hits_eq_nil_iff hr code

/-- The overall assessment is the worst severity of a rule that counts, and clean is a code in
which no rule occurs. -/
theorem overall_scan (code : Text) (file : Option Text) :
    (∀ s : Severity, (scan code file).overall = s.name ↔
      (∃ r ∈ rules, r.Counts code ∧ r.severity = s) ∧
        ∀ r ∈ rules, r.Counts code → s.rank ≤ r.severity.rank) ∧
    ((scan code file).overall = "clean" ↔ ∀ r ∈ rules, r.pattern.occurs code = false) ∧
    (∀ r ∈ rules, r.severity = .high → r.Counts code →
      0 < (scan code file).count .high ∧ (scan code file).overall = Severity.high.name) := by
  have hworst (s : Severity) : (scan code file).overall = s.name ↔
      (∃ r ∈ rules, r.Counts code ∧ r.severity = s) ∧
        ∀ r ∈ rules, r.Counts code → s.rank ≤ r.severity.rank := by
    rw [Report.overall_eq_name_iff, Report.worst?_eq_some_iff]
    simp only [count_scan_pos_iff]
    constructor
    · rintro ⟨⟨g, hg, hs⟩, hle⟩
      refine ⟨⟨g.rule, (mem_hits.1 (mem_hits_of_reported hg)).1, counts_of_reported hg, hs⟩, ?_⟩
      intro r hr hc
      obtain ⟨g', hg', hle'⟩ := exists_reported_of_counts hr hc
      exact Nat.le_trans (hle _ ⟨g', hg', rfl⟩) hle'
    · rintro ⟨⟨r, hr, hc, hs⟩, hle⟩
      have hleast : ∀ g ∈ reported code, s.rank ≤ g.rule.severity.rank := fun g hg =>
        hle g.rule (mem_hits.1 (mem_hits_of_reported hg)).1 (counts_of_reported hg)
      obtain ⟨g, hg, hle'⟩ := exists_reported_of_counts hr hc
      refine ⟨⟨g, hg, ?_⟩, fun s' ⟨g', hg', hs'⟩ => hs' ▸ hleast g' hg'⟩
      exact Severity.rank_inj (Nat.le_antisymm (hs ▸ hle') (hleast g hg))
  refine ⟨hworst, Report.overall_eq_clean_iff.trans findings_scan_eq_nil_iff, ?_⟩
  intro r hr hs hc
  have hhigh := (hworst .high).2 ⟨⟨r, hr, hc, hs⟩, fun _ _ _ => Nat.zero_le _⟩
  exact ⟨(Report.worst?_eq_some_iff.1 (Report.overall_eq_name_iff.1 hhigh)).1, hhigh⟩

/-- Behind `dangerouslySetInnerHTML` on the same line `document.write` is not seen, on a line of
its own it is. -/
theorem overall_scan_write_shown :
    let code := "dangerouslySetInnerHTML document.write(a)\ndocument.write(b)".toList
    Rule.documentWrite.Counts code ∧
      0 < (scan code none).count .high ∧ (scan code none).overall = "high" := by
  intro code
  have hcounts : Rule.documentWrite.Counts code :=
    ⟨by decide, fun _ =>
      ⟨⟨.documentWrite, 2⟩, List.mem_map.2 ⟨⟨42, 15⟩, by decide, rfl⟩, by decide⟩⟩
  exact ⟨hcounts, (overall_scan code none).2.2 .documentWrite (by simp [rules]) rfl hcounts⟩

theorem overall_scan_write_hidden :
    let code := "dangerouslySetInnerHTML; document.write(x)".toList
    (Rule.documentWrite ∈ rules ∧ Rule.documentWrite.severity = .high ∧
        Rule.documentWrite.pattern.occurs code) ∧
      (scan code none).count .high = 0 ∧ (scan code none).overall = "medium" := by
  intro code
  exact ⟨⟨by simp [rules], rfl, by decide⟩, by decide, by decide⟩

end Security

end PatchReview
