import PatchReview.Complexity.Blocks
import PatchReview.Proofs.Pattern.Margins

/-!
Decisions in code with a margin, where blocks go by indentation. A decision is a keyword anywhere,
or a `case` behind the blanks at the start of a line, empty lines among them. So the searches with
and without the margin are compared from the start of a line before the margin, and elsewhere from
the same place. Main statement: `Indent.count_margin`.
-/

set_option autoImplicit false

namespace PatchReview.Complexity.Indent

open Pattern
open Text (IsMargin inset)

variable {w : Text}

def keywords : List String := ["if", "elif", "for", "while", "except", "and", "or"]

def keyword : Pattern := wordEdge ++ words keywords ++ wordEdge

def caseWord : Pattern := lit "case" ++ wordEdge

theorem decision_eq : decision = (keyword ||| lineStart ++ (blanks ++ caseWord)) := by
  rw [decision, append_assoc, append_assoc]
  rfl

theorem allAlike_keyword : AllAlike w keyword :=
  (allAlike_wordEdge.append (allAlike_words (by decide))).append allAlike_wordEdge

theorem allAlike_caseWord : AllAlike w caseWord :=
  (allAlike_ofText (by decide)).append allAlike_wordEdge

theorem skipsBlanks_keyword : keyword.skipsBlanks := by decide

theorem skipsBlanks_caseWord : caseWord.skipsBlanks := by decide

theorem firstEndAt?_decision (c : Cursor) : decision.firstEndAt? c =
    (keyword.ends c).head?.or
      (if c.atLineStart then (caseWord.ends c.afterBlanks).head? else none) := by
  have hcase : (lineStart ++ (blanks ++ caseWord)).ends c =
      if c.atLineStart then caseWord.ends c.afterBlanks else [] := by
    rw [ends_append, ends]
    split
    case isTrue => rw [List.flatMap_singleton, ends_blanks_append skipsBlanks_caseWord]
    case isFalse => rfl
  rw [decision_eq, firstEndAt?_eq_head?]
  change (keyword.ends c ++ (lineStart ++ (blanks ++ caseWord)).ends c).head? = _
  rw [List.head?_append, hcase]
  split <;> rfl

theorem minLength_decision_pos : 0 < decision.minLength := by decide

theorem atLineStart_of_mem_keyword {c d : Cursor} (h : d ∈ keyword.ends c) :
    d.atLineStart = false := by
  have hlast : ∀ s ∈ keywords, ∀ n prev t,
      Cursor.atLineStart ⟨n, behind prev s.toList, t⟩ = false := by
    simp [keywords, Cursor.atLineStart]
  obtain ⟨v, rest, -, hv, rfl⟩ := mem_ends_iff.1 h
  simp only [keyword, reads_append, Reads, reads_words] at hv
  obtain ⟨_, _, rfl, ⟨_, _, rfl, ⟨rfl, -⟩, s, hs, rfl⟩, rfl, -⟩ := hv
  rw [List.nil_append, List.append_nil]
  exact hlast s hs _ _ _

theorem atLineStart_of_mem_caseWord {c d : Cursor} (h : d ∈ caseWord.ends c) :
    d.atLineStart = false := by
  obtain ⟨v, rest, -, hv, rfl⟩ := mem_ends_iff.1 h
  simp only [caseWord, reads_append, Reads, reads_lit] at hv
  obtain ⟨_, _, rfl, rfl, rfl, -⟩ := hv
  rfl

theorem caseWord_ends_of_keyword {c d : Cursor} (h : d ∈ keyword.ends c) :
    caseWord.ends c.afterBlanks = [] := by
  have hnext : c.beforeBlank = false := by
    rw [← Bool.not_eq_true]
    intro hblank
    rw [ends_of_beforeBlank skipsBlanks_keyword hblank] at h
    exact List.not_mem_nil h
  rw [Cursor.afterBlanks_of_not_beforeBlank hnext, List.eq_nil_iff_forall_not_mem]
  intro e he
  obtain ⟨v, rest, hrest, hv, -⟩ := mem_ends_iff.1 h
  obtain ⟨v', rest', hrest', hv', -⟩ := mem_ends_iff.1 he
  simp only [caseWord, reads_append, Reads, reads_lit] at hv'
  obtain ⟨_, _, rfl, rfl, rfl, -⟩ := hv'
  obtain ⟨x, v, rfl, -⟩ := exists_start_of_skipsBlanks skipsBlanks_keyword hv
  rw [hrest] at hrest'
  obtain rfl : x = 'c' := (List.cons.inj hrest').1
  have hbegin : keyword.mayBegin 'c' = false := by decide
  exact Bool.false_ne_true (hbegin.symm.trans (mayBegin_of_reads hv))

theorem any_isWord_of_atLineStart {c : Cursor} (h : c.atLineStart) : c.prev.any isWord = false := by
  obtain ⟨n, prev, t⟩ := c
  cases prev with
  | none => rfl
  | some x =>
    obtain rfl : x = '\n' := beq_iff_eq.1 h
    rfl

/-- The same place in the text with the margin, which at the start of a line is still ahead. -/
inductive Paired (w : Text) : Cursor → Cursor → Prop where
  | within {c c' : Cursor} (h : c.atLineStart = false) (h' : c'.atLineStart = false) :
    c.Aligned w c' → Paired w c c'
  | start {c c' : Cursor} (h : c.atLineStart) (h' : c'.atLineStart) :
    c'.rest = w ++ inset w c.rest → Paired w c c'

theorem paired_of_pass {n : Nat} {prev : Option Char} {x : Char} {t : Text} {e : Cursor}
    (h : Cursor.Aligned w ⟨n, prev, x :: t⟩ e) (hnone : decision.firstEndAt? e = none) :
    ∃ e', Paired w ⟨n + 1, some x, t⟩ e' ∧ decision.countFrom e = decision.countFrom e' := by
  obtain ⟨m, prev', t'⟩ := e
  obtain rfl : t' = inset w (x :: t) := h.rest
  by_cases hx : x = '\n'
  · subst hx
    exact ⟨_, .start rfl rfl rfl, countFrom_of_no_end hnone⟩
  · have hwithin (k : Nat) (u : Text) : Cursor.atLineStart ⟨k, some x, u⟩ = false :=
      beq_eq_false_iff_ne.2 hx
    rw [Text.inset_cons_of_ne hx] at hnone ⊢
    exact ⟨_, .within (hwithin _ _) (hwithin _ _) ⟨rfl, rfl⟩, countFrom_of_no_end hnone⟩

section
variable (hw : IsMargin w)
include hw

/-- From before a margin on which no `case` follows the search goes on behind it. -/
theorem countFrom_behind_margin {n : Nat} {prev : Option Char} {t : Text}
    (hcase : Cursor.atLineStart ⟨n, prev, w ++ t⟩ →
      caseWord.ends (Cursor.afterBlanks ⟨n, prev, w ++ t⟩) = []) :
    decision.countFrom ⟨n, prev, w ++ t⟩ =
      decision.countFrom ⟨n + w.length, behind prev w, t⟩ := by
  induction w generalizing n prev with
  | nil => rfl
  | cons y v ih =>
    rw [List.cons_append] at hcase ⊢
    have hblank : Cursor.beforeBlank ⟨n, prev, y :: (v ++ t)⟩ := hw.blank y List.mem_cons_self
    have hnone : decision.firstEndAt? ⟨n, prev, y :: (v ++ t)⟩ = none := by
      rw [firstEndAt?_decision, ends_of_beforeBlank skipsBlanks_keyword hblank]
      split
      case isTrue hstart => rw [hcase hstart]; rfl
      case isFalse => rfl
    rw [countFrom_of_no_end hnone, add_length_cons, behind_cons]
    -- Within the margin no line starts, so nothing is asked of the later characters.
    refine ih (fun x hx => hw x (List.mem_cons_of_mem y hx)) fun hstart => ?_
    exact absurd (beq_iff_eq.1 hstart) (hw y List.mem_cons_self).2

variable {c c' d : Cursor} (h : Paired w c c')
include h

theorem exists_aligned (hcase : c.atLineStart → caseWord.ends c.afterBlanks = []) :
    ∃ e, c.Aligned w e ∧ decision.countFrom c' = decision.countFrom e ∧
      decision.firstEndAt? e = (keyword.ends e).head? := by
  cases h with
  | within h h' halign =>
    refine ⟨c', halign, rfl, ?_⟩
    rw [firstEndAt?_decision, h', if_neg Bool.false_ne_true, Option.or_none]
  | start h h' hrest =>
    obtain ⟨n', prev', t'⟩ := c'
    obtain rfl : t' = w ++ inset w c.rest := hrest
    have halign : c.Aligned w ⟨n' + w.length, behind prev' w, inset w c.rest⟩ :=
      Cursor.aligned_behind_margin hw (any_isWord_of_atLineStart h) (any_isWord_of_atLineStart h')
    have hnone := allAlike_caseWord.ends_eq_nil (halign.afterBlanks hw) (hcase h)
    refine ⟨_, halign, countFrom_behind_margin hw fun _ => ?_, ?_⟩
    · rw [Cursor.afterBlanks_append hw.blank, hnone]
    · rw [firstEndAt?_decision, hnone, List.head?_nil, ite_self, Option.or_none]

theorem countFrom_of_paired_end (hnil : c.rest = []) : decision.countFrom c' = 0 := by
  have hcase : caseWord.ends c.afterBlanks = [] := by
    refine ends_of_rest_nil (minLength_pos_of_skipsBlanks skipsBlanks_caseWord) ?_
    rw [Cursor.rest_afterBlanks, hnil]
    rfl
  obtain ⟨e, halign, hcount, -⟩ := exists_aligned hw h fun _ => hcase
  have hnil' : e.rest = [] := by rw [halign.rest, hnil]; rfl
  rw [hcount, countFrom, hnil']
  rfl

theorem exists_match_of_case (hkeyword : keyword.ends c = []) (hstart : c.atLineStart)
    (hd : (caseWord.ends c.afterBlanks).head? = some d) :
    ∃ e, Paired w d e ∧ decision.countFrom c' = decision.countFrom e + 1 := by
  cases h with
  | within h => exact absurd (h.symm.trans hstart) Bool.false_ne_true
  | start h h' hrest =>
    obtain ⟨n', prev', t'⟩ := c'
    obtain rfl : t' = w ++ inset w c.rest := hrest
    have halign : c.Aligned w ⟨n' + w.length, behind prev' w, inset w c.rest⟩ :=
      Cursor.aligned_behind_margin hw (any_isWord_of_atLineStart h) (any_isWord_of_atLineStart h')
    have hkeyword' : keyword.ends ⟨n', prev', w ++ inset w c.rest⟩ = [] := by
      cases w with
      | nil => exact allAlike_keyword.ends_eq_nil halign hkeyword
      | cons y v => exact ends_of_beforeBlank skipsBlanks_keyword (hw.blank y List.mem_cons_self)
    obtain ⟨e, he, hnext⟩ := allAlike_caseWord.first.exists_end (halign.afterBlanks hw) hd
    rw [← Cursor.afterBlanks_append hw.blank] at he
    have hfirst : decision.firstEndAt? ⟨n', prev', w ++ inset w c.rest⟩ = some e := by
      rw [firstEndAt?_decision, hkeyword', if_pos h', he]
      rfl
    exact ⟨e, .within (atLineStart_of_mem_caseWord (List.mem_of_head? hd))
      (atLineStart_of_mem_caseWord (List.mem_of_head? he)) hnext,
      (countFrom_of_end minLength_decision_pos hfirst).2⟩

theorem exists_match_of_keyword (hd : (keyword.ends c).head? = some d) :
    ∃ e, Paired w d e ∧ decision.countFrom c' = decision.countFrom e + 1 := by
  have hmem : d ∈ keyword.ends c := List.mem_of_head? hd
  obtain ⟨e, halign, hcount, hfirst⟩ := exists_aligned hw h fun _ => caseWord_ends_of_keyword hmem
  obtain ⟨d', hd', hnext⟩ := allAlike_keyword.first.exists_end halign hd
  have hmem' := List.mem_of_head? hd'
  exact ⟨d', .within (atLineStart_of_mem_keyword hmem) (atLineStart_of_mem_keyword hmem') hnext,
    hcount.trans (countFrom_of_end minLength_decision_pos (hfirst.trans hd')).2⟩

theorem exists_match (hd : decision.firstEndAt? c = some d) :
    ∃ e, Paired w d e ∧ decision.countFrom c' = decision.countFrom e + 1 := by
  rw [firstEndAt?_decision] at hd
  cases hkeyword : keyword.ends c with
  | nil =>
    rw [hkeyword, List.head?_nil, Option.none_or] at hd
    split at hd
    case isTrue hstart => exact exists_match_of_case hw h hkeyword hstart hd
    case isFalse => cases hd
  | cons k ks =>
    rw [hkeyword] at hd
    exact exists_match_of_keyword hw h (by rw [hkeyword]; exact hd)

end

theorem exists_pass (hw : IsMargin w) {n : Nat} {prev : Option Char} {x : Char} {t : Text}
    {c' : Cursor} (h : Paired w ⟨n, prev, x :: t⟩ c')
    (hnone : decision.firstEndAt? ⟨n, prev, x :: t⟩ = none) :
    ∃ e, Paired w ⟨n + 1, some x, t⟩ e ∧ decision.countFrom c' = decision.countFrom e := by
  rw [firstEndAt?_decision, Option.or_eq_none_iff, List.head?_eq_none_iff] at hnone
  obtain ⟨hkeyword, hcase⟩ := hnone
  obtain ⟨e, halign, hcount, hfirst⟩ := exists_aligned hw h fun hstart => by
    rwa [if_pos hstart, List.head?_eq_none_iff] at hcase
  rw [allAlike_keyword.ends_eq_nil halign hkeyword] at hfirst
  obtain ⟨e', he', hpass⟩ := paired_of_pass halign hfirst
  exact ⟨e', he', hcount.trans hpass⟩

/-- The margin adds no decision and takes none away. -/
theorem count_margin (hw : IsMargin w) (t : Text) :
    decision.count (w ++ inset w t) = decision.count t := by
  have hstart : Paired w (.atStart t) (.atStart (w ++ inset w t)) := .start rfl rfl rfl
  exact countFrom_eq_of_rel minLength_decision_pos (countFrom_of_paired_end hw) (exists_pass hw)
    (exists_match hw) hstart

end PatchReview.Complexity.Indent
