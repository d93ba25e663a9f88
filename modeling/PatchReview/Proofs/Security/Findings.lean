import Mathlib.Data.List.Nodup
import PatchReview.Proofs.Distinct
import PatchReview.Proofs.Pattern.Blanks
import PatchReview.Proofs.Security.Overall
import PatchReview.Proofs.Text.Lines

set_option autoImplicit false

namespace PatchReview

namespace Security

theorem Weakness.name_inj {w w' : Weakness} (h : w.name.toList = w'.name.toList) : w = w' := by
  cases w <;> cases w' <;> first | rfl | exact absurd h (by decide)

structure Match where
  place : Fin rules.length
  span : Span

namespace Match

def rule (m : Match) : Rule := rules.get m.place

def type (m : Match) : Text := m.rule.weakness.name.toList

def line (code : Text) (m : Match) : Nat := lineAt code m.span.start

def In (code : Text) (m : Match) : Prop := m.span ∈ m.rule.pattern.spans code

/-- The order of the table, and for one rule the order of the text. -/
def Before (m m' : Match) : Prop :=
  m.place < m'.place ∨ m.place = m'.place ∧ m.span.Before m'.span

/-- No earlier rule has a match of the type on the line. -/
def IsFirst (code : Text) (m : Match) : Prop :=
  m.In code ∧ ∀ m' : Match, m'.In code → m'.type = m.type → m'.line code = m.line code →
    m.place ≤ m'.place

def hit (code : Text) (m : Match) : Hit := ⟨m.rule, m.line code⟩

def all (code : Text) : List Match :=
  (List.finRange rules.length).flatMap fun i => ((rules.get i).pattern.spans code).map (mk i)

def kept (code : Text) : List Match := distinctBy (fun m => (m.hit code).key) (all code)

variable {code : Text}

theorem mem_all {m : Match} : m ∈ all code ↔ m.In code := by
  simp only [all, List.mem_flatMap, List.mem_finRange, true_and, List.mem_map]
  constructor
  · rintro ⟨i, s, hs, rfl⟩
    exact hs
  · exact fun h => ⟨m.place, m.span, h, rfl⟩

theorem pairwise_all : (all code).Pairwise Before := by
  rw [all, List.pairwise_flatMap]
  constructor
  · intro i _
    rw [List.pairwise_map]
    exact (Pattern.pairwise_spans _ code).imp fun h => .inr ⟨rfl, h⟩
  · refine (List.pairwise_lt_finRange _).imp fun hlt m hm m' hm' => .inl ?_
    obtain ⟨s, -, rfl⟩ := List.mem_map.1 hm
    obtain ⟨s', -, rfl⟩ := List.mem_map.1 hm'
    exact hlt

theorem hits_eq : hits code = (all code).map (hit code) := by
  rw [hits]
  conv_lhs => rw [← List.map_get_finRange rules]
  simp only [all, List.flatMap_map, List.map_flatMap, List.map_map]
  rfl

theorem reported_eq : Security.reported code = (kept code).map (hit code) := by
  rw [Security.reported, hits_eq]
  exact distinctFrom_map Hit.key (hit code) [] (all code)

theorem pairwise_kept : (kept code).Pairwise Before :=
  pairwise_all.sublist (distinctFrom_sublist _ [] _)

theorem in_of_mem_kept {m : Match} (h : m ∈ kept code) : m.In code :=
  mem_all.1 ((distinctFrom_sublist _ [] _).subset h)

theorem isFirst_of_mem_kept {m : Match} (h : m ∈ kept code) : m.IsFirst code := by
  refine ⟨in_of_mem_kept h, fun m' hm' htype hline => ?_⟩
  have hkey : (m'.hit code).key = (m.hit code).key :=
    Prod.ext (Weakness.name_inj htype) hline
  rcases eq_or_rel_of_mem_distinctBy pairwise_all h (mem_all.2 hm') hkey with rfl | hlt | ⟨heq, -⟩
  · exact Nat.le_refl _
  · exact Nat.le_of_lt hlt
  · exact Nat.le_of_eq (congrArg Fin.val heq)

theorem exists_kept {m : Match} (h : m.In code) :
    ∃ m' ∈ kept code, m'.type = m.type ∧ m'.line code = m.line code := by
  have hkey := (mem_map_key_distinctFrom (fun m => (m.hit code).key) [] (all code) _).2
    ⟨List.mem_map_of_mem (mem_all.2 h), List.not_mem_nil⟩
  obtain ⟨m', hm', heq⟩ := List.mem_map.1 hkey
  exact ⟨m', hm', congrArg (fun k => k.1.name.toList) heq, congrArg Prod.snd heq⟩

def finding (code : Text) (file : Option Text) (m : Match) : Finding where
  severity := m.rule.severity
  type := m.type
  message := m.rule.message.toList
  file := file
  line := some (m.line code)
  snippet := some (snippet (Text.lines code) (m.line code))

theorem findings_scan (file : Option Text) :
    (scan code file).findings = (kept code).map (finding code file) := by
  change (Security.reported code).map (Hit.finding (Text.lines code) file) = _
  rw [reported_eq, List.map_map]
  rfl

end Match

theorem skipsBlanks_pattern : ∀ r ∈ rules, r.pattern.skipsBlanks := by decide

theorem exists_start_of_mem_spans {r : Rule} (hr : r ∈ rules) {code : Text} {s : Span}
    (hs : s ∈ r.pattern.spans code) :
    ∃ x c y, code = x ++ ([c] ++ y) ∧ s.start = x.length ∧ isBlank c = false := by
  obtain ⟨x, w, rest, rfl, hstart, -, hw⟩ := Pattern.exists_of_mem_spans hs
  obtain ⟨c, v, rfl, hc⟩ := Pattern.exists_start_of_skipsBlanks (skipsBlanks_pattern r hr) hw
  exact ⟨x, c, v ++ rest, by simp, hstart, hc⟩

theorem exists_line_of_append {x w y : Text} (hw : '\n' ∉ w) :
    ∃ n l, lineAt (x ++ (w ++ y)) x.length = n + 1 ∧
      (Text.lines (x ++ (w ++ y)))[n]? = some l ∧ w <:+: l := by
  obtain ⟨l, hl, hin⟩ := Text.infix_of_count hw x y
  exact ⟨x.count '\n', l, by rw [lineAt, List.take_left], hl, hin⟩

theorem Match.exists_line {code : Text} {m : Match} (h : m.In code) :
    ∃ n l c, m.line code = n + 1 ∧ (Text.lines code)[n]? = some l ∧ c ∈ l ∧ isBlank c = false := by
  obtain ⟨x, c, y, rfl, hstart, hc⟩ := exists_start_of_mem_spans (List.get_mem rules m.place) h
  have hline : '\n' ∉ [c] := by
    rintro h
    obtain rfl := List.mem_singleton.1 h
    exact absurd hc (by decide)
  obtain ⟨n, l, hn, hl, hin⟩ := exists_line_of_append hline
  exact ⟨n, l, c, by rw [Match.line, hstart, hn], hl, hin.subset List.mem_cons_self, hc⟩

theorem Report.count_add (r : Report) :
    r.count .high + r.count .medium + r.count .low = r.findings.length := by
  obtain ⟨l⟩ := r
  simp only [Report.count]
  induction l with
  | nil => rfl
  | cons f l ih =>
    simp only [List.countP_cons, List.length_cons, ← ih]
    cases f.severity <;> simp <;> omega

/-- What a report says of a code: one finding for each weakness and line that has a match. -/
structure Report.IsExact (code : Text) (file : Option Text) (r : Report) : Prop where
  scans : ∀ rule ∈ rules, rule.pattern.IsScan code (rule.pattern.spans code)
  nodup_keys : (r.findings.map fun f => (f.type, f.line)).Nodup
  mem_keys : ∀ type line, (type, line) ∈ r.findings.map (fun f => (f.type, f.line)) ↔
    ∃ m : Match, m.In code ∧ m.type = type ∧ some (m.line code : Int) = line
  firstMatches : ∃ ms : List Match, ms.Pairwise Match.Before ∧ (∀ m ∈ ms, m.IsFirst code) ∧
    r.findings = ms.map (Match.finding code file)
  lines : ∀ f ∈ r.findings, ∃ (n : Nat) (l shown : Text), f.line = some (n + 1 : Int) ∧
    (Text.lines code)[n]? = some l ∧ f.snippet = some shown ∧
    shown = (Text.trim l).take 100 ∧ shown ≠ [] ∧ '\n' ∉ shown
  total : r.count .high + r.count .medium + r.count .low = r.findings.length
  summary : r.toJson.member? "summary" = some (.ofMembers [
    ("high", .ofNat (r.count .high)),
    ("medium", .ofNat (r.count .medium)),
    ("low", .ofNat (r.count .low)),
    ("total", .ofNat (r.count .high + r.count .medium + r.count .low))])

theorem Match.finding_lines {code : Text} (file : Option Text) {m : Match} (h : m.In code) :
    ∃ (n : Nat) (l shown : Text), (m.finding code file).line = some (n + 1 : Int) ∧
      (Text.lines code)[n]? = some l ∧ (m.finding code file).snippet = some shown ∧
      shown = (Text.trim l).take 100 ∧ shown ≠ [] ∧ '\n' ∉ shown := by
  obtain ⟨n, l, c, hn, hl, hc, hblank⟩ := Match.exists_line h
  refine ⟨n, l, (Text.trim l).take 100, by simp [finding, hn], hl, ?_, rfl, ?_, ?_⟩
  · simp [finding, snippet, hn, hl, maxSnippet]
  · simpa using Text.trim_ne_nil hc hblank
  · intro hmem
    exact Text.newline_notMem_of_mem_lines (List.mem_of_getElem? hl)
      (Text.mem_of_mem_trim (List.mem_of_mem_take hmem))

theorem mem_keys_scan (code : Text) (file : Option Text) (type : Text) (line : Option Int) :
    (type, line) ∈ (scan code file).findings.map (fun f => (f.type, f.line)) ↔
      ∃ m : Match, m.In code ∧ m.type = type ∧ some (m.line code : Int) = line := by
  rw [Match.findings_scan, List.map_map, List.mem_map]
  constructor
  · rintro ⟨m, hm, heq⟩
    obtain ⟨htype, hline⟩ := Prod.mk.inj heq
    exact ⟨m, Match.in_of_mem_kept hm, htype, hline⟩
  · rintro ⟨m, hm, rfl, rfl⟩
    obtain ⟨m', hm', htype, hline⟩ := Match.exists_kept hm
    exact ⟨m', hm', by simp [Match.finding, htype, hline]⟩

theorem exists_finding_iff (code : Text) (file : Option Text) (type : Text) (line : Int) :
    (∃ f ∈ (scan code file).findings, f.type = type ∧ f.line = some line) ↔
      ∃ m : Match, m.In code ∧ m.type = type ∧ (m.line code : Int) = line := by
  have hkeys := mem_keys_scan code file type (some line)
  simpa [List.mem_map] using hkeys

theorem nodup_keys_scan (code : Text) (file : Option Text) :
    ((scan code file).findings.map fun f => (f.type, f.line)).Nodup := by
  let shown : Weakness × Nat → Text × Option Int := fun k => (k.1.name.toList, some k.2)
  have hinj : Function.Injective shown := by
    rintro ⟨w, n⟩ ⟨w', n'⟩ h
    obtain ⟨hw, hn⟩ := Prod.mk.inj h
    exact Prod.ext (Weakness.name_inj hw) (Int.ofNat.inj (Option.some.inj hn))
  have hkeys := nodup_map_key_distinctFrom (fun m => (Match.hit code m).key) [] (Match.all code)
  rw [Match.findings_scan, List.map_map]
  have hshown := List.Nodup.map hinj hkeys
  rw [List.map_map] at hshown
  exact hshown

/-- A scan reports the first match of each weakness and line. -/
theorem isExact_scan (code : Text) (file : Option Text) : (scan code file).IsExact code file where
  scans rule _ := rule.pattern.isScan_spans code
  nodup_keys := nodup_keys_scan code file
  mem_keys := mem_keys_scan code file
  firstMatches := ⟨Match.kept code, Match.pairwise_kept, fun _ => Match.isFirst_of_mem_kept,
    Match.findings_scan file⟩
  lines f hf := by
    rw [Match.findings_scan] at hf
    obtain ⟨m, hm, rfl⟩ := List.mem_map.1 hf
    exact Match.finding_lines file (Match.in_of_mem_kept hm)
  total := Report.count_add _
  summary := by simp [Report.toJson, Json.ofMembers, Json.member?, Report.count_add]

end Security

end PatchReview
