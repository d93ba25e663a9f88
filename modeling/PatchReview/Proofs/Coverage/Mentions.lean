import PatchReview.Coverage.Mapping
import PatchReview.Proofs.Text.Lines
import PatchReview.Proofs.Text.Lowercase

/-!
Words sought in lower case. A newline has no case and no part in the case of its neighbours, so a
text is put in lower case line by line, and a word without a newline is found in one of the lines.
Name and text are put in lower case apart from each other, so a name that stands in the text as it
is counts where its capital sigmas have the forms that they have in the name alone. Main statement:
`isCovered_of_keepsSigmas`.
-/

set_option autoImplicit false

namespace PatchReview

theorem lowerChar_ne_nil (c : Char) : lowerChar c ≠ [] := by
  rw [lowerChar]
  repeat' split
  all_goals simp

set_option maxRecDepth 1000 in
theorem newline_lt_capitalRuns : ∀ r ∈ capitalRuns, 10 < (r.first : Int) + r.shift := by
  decide

theorem eq_newline_of_toLower {c : Char} (h : c.toLower = '\n') : c = '\n' := by
  by_cases hcase : c.val ≥ 'A'.val ∧ c.val ≤ 'Z'.val
  · have hlower : c.toLower.val = c.val + 32 := congrArg Char.val (dif_pos hcase)
    have hval : (c.val.toNat + 32) % 2 ^ 32 = 10 := by
      change (c.val + 32).toNat = 10
      rw [← hlower, h]
      rfl
    have hge : 65 ≤ c.val.toNat := hcase.1
    have hle : c.val.toNat ≤ 90 := hcase.2
    omega
  · exact (dif_neg hcase).symm.trans h

theorem toNat_eq_of_ofNat_eq_newline {n : Nat} (h : Char.ofNat n = '\n') : n = 10 := by
  have hten : (Char.ofNat n).toNat = 10 := congrArg Char.toNat h
  by_cases hvalid : n.isValidChar
  · exact (congrArg Char.toNat (dif_pos hvalid)).symm.trans hten
  · exact absurd ((congrArg Char.toNat (dif_neg hvalid)).symm.trans hten) (by decide)

theorem eq_newline_of_mem_lowerChar {c : Char} (h : '\n' ∈ lowerChar c) : c = '\n' := by
  rw [lowerChar] at h
  split at h
  · exact eq_newline_of_toLower (List.mem_singleton.1 h).symm
  split at h
  · exact absurd h (by decide)
  split at h
  case h_1 r hr =>
    have hlt := newline_lt_capitalRuns r (List.mem_of_find?_eq_some hr)
    have hholds := List.find?_some hr
    simp only [CapitalRun.holds, Bool.and_eq_true, decide_eq_true_eq] at hholds
    have hnat := toNat_eq_of_ofNat_eq_newline (List.mem_singleton.1 h).symm
    omega
  case h_2 => exact (List.mem_singleton.1 h).symm

namespace Text

theorem lowerFrom_ne_nil {t : Text} (h : t ≠ []) (afterCased : Bool) :
    lowerFrom afterCased t ≠ [] := by
  cases t with
  | nil => exact absurd rfl h
  | cons c t =>
    rw [lowerFrom]
    split <;> simp [lowerChar_ne_nil]

theorem lower_ne_nil {t : Text} (h : t ≠ []) : lower t ≠ [] := lowerFrom_ne_nil h false

theorem newline_notMem_lower {t : Text} (h : '\n' ∉ t) : '\n' ∉ lower t := by
  have hfrom (afterCased : Bool) : '\n' ∉ lowerFrom afterCased t := by
    induction t generalizing afterCased with
    | nil => simp [lowerFrom]
    | cons c t ih =>
      simp only [List.mem_cons, not_or] at h
      have hc : '\n' ∉ lowerChar c := fun hin => h.1 (eq_newline_of_mem_lowerChar hin).symm
      rw [lowerFrom, List.mem_append, not_or]
      refine ⟨?_, ih h.2 _⟩
      split
      · split <;> decide
      · exact hc
  exact hfrom false

set_option maxRecDepth 1000 in
theorem not_isCaseIgnorable_newline : isCaseIgnorable '\n' = false := by decide

theorem not_isCased_newline : isCased '\n' = false := by decide

theorem startsCased_append_newline (a b : Text) :
    startsCased (a ++ '\n' :: b) = startsCased a := by
  induction a with
  | nil => simp [startsCased, not_isCaseIgnorable_newline, not_isCased_newline]
  | cons c a ih => simp only [List.cons_append, startsCased, ih]

/-- What stands before a newline and what stands behind it do not meet. -/
theorem lower_append_newline (a b : Text) :
    lower (a ++ '\n' :: b) = lower a ++ '\n' :: lower b := by
  have hfrom (afterCased : Bool) :
      lowerFrom afterCased (a ++ '\n' :: b) = lowerFrom afterCased a ++ '\n' :: lower b := by
    induction a generalizing afterCased with
    | nil =>
      have hnewline : lowerChar '\n' = ['\n'] := by decide
      simp [lowerFrom, hnewline, not_isCaseIgnorable_newline, not_isCased_newline, lower]
    | cons c a ih =>
      simp only [List.cons_append, lowerFrom, startsCased_append_newline, ih, List.append_assoc]
  exact hfrom false

theorem lower_unlines (ls : List Text) : lower (unlines ls) = unlines (ls.map lower) := by
  induction ls with
  | nil => rfl
  | cons l ls ih =>
    cases ls with
    | nil => rfl
    | cons m ms => rw [unlines_cons_cons, lower_append_newline, ih]; rfl

theorem occursIn_iff {part t : Text} : occursIn part t ↔ part <:+: t := by
  induction t with
  | nil => simp [occursIn]
  | cons c t ih =>
    rw [occursIn, Bool.or_eq_true, ih, List.isPrefixOf_iff_prefix, List.infix_cons_iff]

theorem infix_append_newline_iff {part : Text} (hpart : '\n' ∉ part) (a b : Text) :
    part <:+: a ++ '\n' :: b ↔ part <:+: a ∨ part <:+: b := by
  have hnil {p : Text} (hp : '\n' ∉ p) (h : p <+: '\n' :: b) : p = [] := by
    rcases List.prefix_cons_iff.1 h with rfl | ⟨q, rfl, -⟩
    · rfl
    · simp at hp
  constructor
  · intro h
    rcases List.infix_append_iff.1 h with h | h | ⟨p, q, rfl, hp, hq⟩
    · exact .inl h
    · rcases List.infix_cons_iff.1 h with h | h
      · exact .inl (hnil hpart h ▸ List.nil_infix)
      · exact .inr h
    · simp only [List.mem_append, not_or] at hpart
      rw [hnil hpart.2 hq, List.append_nil]
      exact .inl hp.isInfix
  · rintro (h | h)
    · exact h.trans (List.prefix_append a _).isInfix
    · exact h.trans ((List.suffix_cons '\n' b).trans (List.suffix_append a _)).isInfix

theorem infix_unlines_iff {part : Text} (hne : part ≠ []) (hpart : '\n' ∉ part) (ls : List Text) :
    part <:+: unlines ls ↔ ∃ l ∈ ls, part <:+: l := by
  induction ls with
  | nil => simp [unlines, hne]
  | cons l ls ih =>
    cases ls with
    | nil => simp [unlines]
    | cons m ms =>
      rw [unlines_cons_cons, infix_append_newline_iff hpart, ih]
      simp

end Text

namespace Coverage

theorem mentions_lower_unlines {name : Text} (h : '\n' ∉ name) (ls : List Text) :
    mentions (Text.lower (Text.unlines ls)) name ↔ ∃ l ∈ ls, mentions (Text.lower l) name := by
  by_cases hname : name = []
  · simp [mentions, hname]
  · simp only [mentions, Bool.and_eq_true, Text.occursIn_iff, Text.lower_unlines,
      Text.infix_unlines_iff (Text.lower_ne_nil hname) (Text.newline_notMem_lower h)]
    simp [hname]

theorem not_mentions_nil (name : Text) : mentions (Text.lower []) name = false := by
  by_cases hname : name = []
  · simp [mentions, hname]
  · rw [mentions, Bool.and_eq_false_iff]
    exact .inr (by simpa [Text.lower, Text.lowerFrom, Text.occursIn] using Text.lower_ne_nil hname)

theorem isCovered_of_infix_lower {source content : Text} (h : Path.baseName source ≠ [])
    (hin : Text.lower (Path.baseName source) <:+: Text.lower content) (changed : List Text) :
    isCovered source changed content := by
  rw [isCovered, hasTest, mentions, Bool.or_eq_true, Bool.and_eq_true, Text.occursIn_iff]
  exact .inr ⟨by simpa using h, hin⟩

theorem infix_lower_of_isCovered {source content : Text} (h : isCovered source [] content) :
    Text.lower (Path.baseName source) <:+: Text.lower content := by
  rw [isCovered, hasTest, List.any_nil, Bool.false_or, mentions, Bool.and_eq_true,
    Text.occursIn_iff] at h
  exact h.2

/-- A base name that stands in the text as it is counts as a mention where its sigmas keep their
form. It counts wherever it stands if and only if no sigma of it needs more than the name. -/
theorem isCovered_of_keepsSigmas {source : Text} (h : Path.baseName source ≠ []) :
    let name := Path.baseName source
    (∀ x y, Text.KeepsSigmas x name y → ∀ changed, isCovered source changed (x ++ name ++ y)) ∧
    ((∀ x y changed, isCovered source changed (x ++ name ++ y)) ↔ Text.IsSettled name) := by
  intro name
  refine ⟨fun x y hkeeps => isCovered_of_infix_lower h hkeeps.infix_lower, ?_⟩
  rw [← Text.infix_lower_iff_isSettled]
  constructor
  · intro hcovered x y
    exact infix_lower_of_isCovered (hcovered x y [])
  · intro hin x y
    exact isCovered_of_infix_lower h (hin x y)

/-- The name ends in a sigma, which a full stop leaves at the end of a word and a letter does not. -/
theorem isCovered_of_keepsSigmas_stop :
    let source := "src/ΑΣ.ts".toList
    isCovered source [] ("of ".toList ++ Path.baseName source ++ ".".toList) ∧
      ¬∀ x y changed, isCovered source changed (x ++ Path.baseName source ++ y) := by
  intro source
  have hname : Path.baseName source = "ΑΣ".toList := by decide +kernel
  obtain ⟨hplace, hall⟩ := @isCovered_of_keepsSigmas source (by rw [hname]; decide)
  rw [hall, hname]
  rw [hname] at hplace
  constructor
  · refine hplace _ _ ?_ []
    intro p q hsigma
    obtain ⟨rfl, rfl⟩ : p = "Α".toList ∧ q = [] := by
      rcases p with _ | ⟨a, _ | ⟨b, p⟩⟩ <;> simp [Text.HasSigma] at hsigma
      exact ⟨by rw [← hsigma.1]; rfl, hsigma.2⟩
    decide +kernel
  · intro hsettled
    have hbehind := (hsettled "Α".toList [] rfl).1 (by decide +kernel)
    exact absurd hbehind (by decide)

/-- A letter behind the same name, and the name is not found. -/
theorem not_isCovered_of_letter :
    let source := "ΑΣ.ts".toList
    Path.baseName source = "ΑΣ".toList ∧
      isCovered source [] ([] ++ Path.baseName source ++ "Α".toList) = false := by
  decide +kernel

end Coverage

end PatchReview
