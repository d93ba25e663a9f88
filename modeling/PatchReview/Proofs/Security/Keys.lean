import PatchReview.Proofs.Security.Findings

set_option autoImplicit false

namespace PatchReview

namespace Security

inductive LeakedKey where
  | stripe | github | aws

namespace LeakedKey

def type : LeakedKey → String
  | stripe => "stripe-key"
  | github => "github-token"
  | aws => "aws-key"

def openings : LeakedKey → List String
  | stripe => ["sk_live_", "sk_test_", "pk_live_", "pk_test_"]
  | github => ["ghp_"]
  | aws => ["AKIA"]

def accepts : LeakedKey → Char → Bool
  | stripe | github => Char.isAlphanum
  | aws => fun c => c.isDigit || c.isUpper

def HasLength : LeakedKey → Nat → Prop
  | stripe, n => 24 ≤ n
  | github, n => n = 36
  | aws, n => n = 16

def IsKey (k : LeakedKey) (w : Text) : Prop :=
  ∃ s ∈ k.openings, ∃ u, w = s.toList ++ u ∧ k.HasLength u.length ∧ ∀ c ∈ u, k.accepts c

def rule : LeakedKey → Rule
  | stripe => .stripeKey
  | github => .githubToken
  | aws => .awsKey

theorem isKey_iff (k : LeakedKey) (w : Text) :
    k.IsKey w ↔ ∃ u v, w = u ++ v ∧ (∃ s ∈ k.openings, u = s.toList) ∧ k.HasLength v.length ∧
      ∀ c ∈ v, k.accepts c := by
  constructor
  · rintro ⟨s, hs, u, rfl, hu⟩
    exact ⟨_, u, rfl, ⟨s, hs, rfl⟩, hu⟩
  · rintro ⟨_, v, rfl, ⟨s, hs, rfl⟩, hv⟩
    exact ⟨s, hs, v, rfl, hv⟩

open Pattern

theorem reads_stripeOpening {prev : Option Char} {w rest : Text} :
    (words ["sk", "pk"] ++ lit "_" ++ words ["live", "test"] ++ lit "_").Reads prev w rest ↔
      ∃ s ∈ stripe.openings, w = s.toList := by
  simp only [reads_append, reads_words, reads_lit]
  constructor
  · rintro ⟨_, _, rfl, ⟨_, _, rfl, ⟨_, _, rfl, ⟨kind, hkind, rfl⟩, rfl⟩, mode, hmode, rfl⟩, rfl⟩
    have hall : ∀ kind ∈ ["sk", "pk"], ∀ mode ∈ ["live", "test"], ∃ s ∈ stripe.openings,
        kind.toList ++ "_".toList ++ mode.toList ++ "_".toList = s.toList := by
      decide
    exact hall kind hkind mode hmode
  · rintro ⟨s, hs, rfl⟩
    have hall : ∀ s ∈ stripe.openings, ∃ kind ∈ ["sk", "pk"], ∃ mode ∈ ["live", "test"],
        kind.toList ++ "_".toList ++ mode.toList ++ "_".toList = s.toList := by
      decide
    obtain ⟨kind, hkind, mode, hmode, heq⟩ := hall s hs
    exact ⟨_, _, heq.symm, ⟨_, _, rfl, ⟨_, _, rfl, ⟨kind, hkind, rfl⟩, rfl⟩, mode, hmode, rfl⟩, rfl⟩

theorem reads_rule {k : LeakedKey} {prev : Option Char} {w rest : Text} :
    k.rule.pattern.Reads prev w rest ↔ k.IsKey w := by
  cases k with
  | stripe =>
    simp only [rule, Rule.stripeKey]
    rw [reads_append]
    simp only [reads_stripeOpening, reads_atLeast]
    exact (isKey_iff _ _).symm
  | github =>
    simp only [rule, Rule.githubToken, reads_append, reads_lit, reads_exactly, isKey_iff, openings,
      List.mem_singleton, exists_eq_left]
    rfl
  | aws =>
    simp only [rule, Rule.awsKey, reads_append, reads_lit, reads_exactly, isKey_iff, openings,
      List.mem_singleton, exists_eq_left]
    rfl

theorem newline_notMem_of_isKey {k : LeakedKey} {w : Text} (h : k.IsKey w) : '\n' ∉ w := by
  obtain ⟨s, hs, u, rfl, -, hu⟩ := h
  have hopening : ∀ s ∈ k.openings, '\n' ∉ s.toList := by cases k <;> decide
  have hrun : k.accepts '\n' = false := by cases k <;> decide
  rw [List.mem_append, not_or]
  exact ⟨hopening s hs, fun hmem => Bool.false_ne_true (hrun.symm.trans (hu _ hmem))⟩

theorem ne_nil_of_isKey {k : LeakedKey} {w : Text} (h : k.IsKey w) : w ≠ [] := by
  obtain ⟨s, hs, u, rfl, -, -⟩ := h
  have hopening : ∀ s ∈ k.openings, s.toList ≠ [] := by cases k <;> decide
  simp [hopening s hs]

theorem rule_mem (k : LeakedKey) : k.rule ∈ rules := by
  cases k <;> simp [rule, rules]

theorem type_eq_iff {r : Rule} (hr : r ∈ rules) {k : LeakedKey} :
    r.weakness.name.toList = k.type.toList ↔ r = k.rule := by
  have htype : k.rule.weakness.name.toList = k.type.toList := by cases k <;> rfl
  constructor
  · intro h
    have hw : r.weakness = k.rule.weakness := Weakness.name_inj (h.trans htype.symm)
    have hmem : r ∈ rules.filter (·.weakness == k.rule.weakness) :=
      List.mem_filter.2 ⟨hr, by simp [hw]⟩
    have hlist : rules.filter (·.weakness == k.rule.weakness) = [k.rule] := by cases k <;> rfl
    simpa [hlist] using hmem
  · rintro rfl
    exact htype

end LeakedKey

theorem lineAt_eq_of_within {code x x' w rest t : Text} (hx : code = x ++ t)
    (hx' : code = x' ++ (w ++ rest)) (hw : '\n' ∉ w) (hstart : x'.length ≤ x.length)
    (hend : x.length ≤ x'.length + w.length) : lineAt code x'.length = x.count '\n' + 1 := by
  obtain ⟨u, rfl⟩ : x' <+: x := List.prefix_of_prefix_length_le ⟨_, hx'.symm⟩ ⟨_, hx.symm⟩ hstart
  have hu : u <+: w := by
    have hcode : u ++ t = w ++ rest := by simpa using hx.symm.trans hx'
    refine List.prefix_of_prefix_length_le ⟨_, hcode⟩ (List.prefix_append w rest) ?_
    simpa using hend
  have hnone : u.count '\n' = 0 := List.count_eq_zero.2 fun h => hw (hu.subset h)
  rw [lineAt, hx', List.take_left, List.count_append, hnone, Nat.add_zero]

open LeakedKey

/-- A key is reported for a line exactly when the line holds one. -/
theorem reports_key_iff (k : LeakedKey) (code : Text) (file : Option Text) (line : Int) :
    (∃ f ∈ (scan code file).findings, f.type = k.type.toList ∧ f.line = some line) ↔
      ∃ (n : Nat) (l : Text), line = n + 1 ∧ (Text.lines code)[n]? = some l ∧
        ∃ w, w <:+: l ∧ k.IsKey w := by
  rw [exists_finding_iff]
  constructor
  · rintro ⟨m, hm, htype, rfl⟩
    have hrule : m.rule = k.rule := (type_eq_iff (List.get_mem rules m.place)).1 htype
    obtain ⟨x, w, rest, rfl, hstart, -, hw⟩ := Pattern.exists_of_mem_spans hm
    rw [hrule, reads_rule] at hw
    obtain ⟨n, l, hn, hl, hin⟩ := exists_line_of_append (newline_notMem_of_isKey hw)
    exact ⟨n, l, by rw [Match.line, hstart, hn]; rfl, hl, w, hin, hw⟩
  · rintro ⟨n, l, rfl, hl, w, hin, hw⟩
    obtain ⟨x, y, rfl, hcount⟩ := Text.exists_count_of_infix hl hin
    have hne : w ++ y ≠ [] := List.append_ne_nil_of_left_ne_nil (ne_nil_of_isKey hw) y
    -- the key lies in a match, which may begin before it but on the same line
    obtain ⟨s, hs, hstart, hend⟩ := Pattern.exists_span_of_starts hne
      ⟨w, y, rfl, reads_rule.2 hw⟩
    obtain ⟨x', w', rest, hcode, hx', hw', hreads⟩ := Pattern.exists_of_mem_spans hs
    have hline := lineAt_eq_of_within rfl hcode (newline_notMem_of_isKey (reads_rule.1 hreads))
      (by omega) (by omega)
    obtain ⟨i, hi⟩ := List.mem_iff_get.1 (rule_mem k)
    refine ⟨⟨i, s⟩, ?_, ?_, ?_⟩
    · rw [Match.In, Match.rule, hi]
      exact hs
    · exact (type_eq_iff (List.get_mem rules i)).2 hi
    · rw [Match.line, hx', hline, hcount]
      rfl

end Security

end PatchReview
