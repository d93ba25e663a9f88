import PatchReview.Authorship.Detection
import PatchReview.Diff.Lines
import PatchReview.Proofs.Pattern.Plain
import PatchReview.Proofs.Text.Lines

/-!
Marks of generated text and the seams of a diff. A generic name or a placeholder may go over the
end of a line, but not into a line that begins a section: no word that may stand behind its blanks
begins as that line does. Main statements: `partsAt_genericName` and `partsAt_placeholder`.
-/

set_option autoImplicit false

namespace PatchReview

namespace Authorship

open Pattern

theorem exists_suffix_of_newline {a b c u v : Text} (h : a ++ (b ++ c) = u ++ '\n' :: v)
    (ha : '\n' ∉ a) (hc : '\n' ∉ c) : ∃ b', b' <:+ b ∧ v = b' ++ c := by
  have hblanks {x y : Text} (h : x ++ '\n' :: v = y ++ c) : ∃ b', b' <:+ y ∧ v = b' ++ c := by
    obtain ⟨z, rfl, hz⟩ := Text.exists_of_append_eq h.symm hc
    exact ⟨z, (List.suffix_cons '\n' z).trans (List.suffix_append x _), hz⟩
  rcases List.append_eq_append_iff.1 h with ⟨x, rfl, hx⟩ | ⟨x, rfl, hx⟩
  · exact hblanks hx.symm
  · cases x with
    | nil => exact hblanks (x := []) hx
    | cons d x =>
      obtain ⟨rfl, -⟩ := List.cons.inj hx
      simp at ha

theorem newline_notMem_of_accepts {accepts : Char → Bool} (hacc : accepts '\n' = false) {w : Text}
    (h : ∀ c ∈ w, accepts c) : '\n' ∉ w :=
  fun hin => Bool.false_ne_true (hacc.symm.trans (h _ hin))

def genericVerbs : List String :=
  ["handle", "process", "validate", "check", "get", "set", "update", "create", "delete", "fetch",
    "render"]

theorem newline_notMem_genericVerb : ∀ s ∈ genericVerbs, '\n' ∉ s.toList := by decide

theorem reads_named {keyword tail : Pattern}
    (hkeyword : ∀ prev v rest, keyword.Reads prev v rest → '\n' ∉ v)
    (htail : ∀ prev v rest, tail.Reads prev v rest → '\n' ∉ v) {prev : Option Char} {w rest : Text}
    (h : (keyword ++ (someBlanks ++ (genericVerb ++ tail))).Reads prev w rest) :
    ∃ a b c, w = a ++ (b ++ c) ∧ '\n' ∉ a ∧ (∀ x ∈ b, isBlank x) ∧ '\n' ∉ c ∧
      ∃ s ∈ genericVerbs, s.toList <+: c := by
  obtain ⟨a, _, rfl, ha, hblanks⟩ := reads_append.1 h
  obtain ⟨b, _, rfl, hb, hverb⟩ := reads_append.1 hblanks
  obtain ⟨_, v, rfl, hread, hv⟩ := reads_append.1 hverb
  obtain ⟨s, hs, rfl⟩ := reads_words.1 hread
  have hc : '\n' ∉ s.toList ++ v := by
    rw [List.mem_append, not_or]
    exact ⟨newline_notMem_genericVerb s hs, htail _ _ _ hv⟩
  exact ⟨a, b, s.toList ++ v, rfl, hkeyword _ _ _ ha, (reads_atLeast_one.1 hb).2, hc, s, hs,
    List.prefix_append _ _⟩

theorem reads_genericName {prev : Option Char} {w rest : Text} (h : genericName.Reads prev w rest) :
    ∃ a b c, w = a ++ (b ++ c) ∧ '\n' ∉ a ∧ (∀ x ∈ b, isBlank x) ∧ '\n' ∉ c ∧
      ∃ s ∈ genericVerbs, s.toList <+: c := by
  have hwordChars {prev : Option Char} {v rest : Text} (hv : wordChars.Reads prev v rest) :
      '\n' ∉ v :=
    newline_notMem_of_accepts (by decide) (reads_atLeast_one.1 hv).2
  rcases h with h | h
  · rw [append_assoc, append_assoc, append_assoc] at h
    refine reads_named ?keyword ?tail h
    case keyword =>
      intro prev v rest hv
      obtain ⟨s, hs, rfl⟩ := reads_words.1 hv
      have hall : ∀ s ∈ ["function", "const", "let", "var"], '\n' ∉ s.toList := by decide
      exact hall s hs
    case tail =>
      intro prev v rest hv
      obtain ⟨_, v, rfl, ⟨x, rfl, hx⟩, hv⟩ := reads_append.1 hv
      simp only [List.singleton_append, List.mem_cons, not_or]
      exact ⟨fun he => absurd (he ▸ hx) (by decide), hwordChars hv⟩
  · rw [append_assoc, append_assoc, append_assoc] at h
    refine reads_named ?keyword ?tail h
    case keyword =>
      intro prev v rest hv
      rw [reads_lit.1 hv]
      decide
    case tail =>
      intro prev v rest hv
      obtain ⟨_, v, rfl, hlit, hv⟩ := reads_append.1 hv
      rw [reads_lit.1 hlit, List.mem_append, not_or]
      exact ⟨by decide, hwordChars hv⟩

def placeholderVerbs : List String := ["implement", "add", "fix", "handle", "update"]

theorem reads_placeholder {prev : Option Char} {w rest : Text} (h : placeholder.Reads prev w rest) :
    ∃ w', List.Forall₂ IsForm w' w ∧ ∃ b, (∀ x ∈ b, isBlank x) ∧
      ∃ s ∈ placeholderVerbs, w' = "TODO:".toList ++ (b ++ s.toList) := by
  obtain ⟨w', hw', hreads⟩ := exists_reads_of_caseless (by decide) h
  refine ⟨w', hw', ?_⟩
  have hword := hreads none []
  rw [append_assoc, reads_append] at hword
  obtain ⟨_, v, rfl, hlit, hv⟩ := hword
  obtain ⟨b, _, rfl, hb, hc⟩ := reads_append.1 hv
  obtain ⟨s, hs, rfl⟩ := reads_words.1 hc
  exact ⟨b, hb, s, hs, by rw [reads_lit.1 hlit]⟩

section
variable {s t : Text} (hend : s.getLast? = some '\n') (ht : Diff.isGitMark t)
include hend ht

/-- Over a seam goes a word with a newline in it, behind which the mark of a section begins. -/
theorem partsAt_of_seam {p : Pattern}
    (h : ∀ u v prev rest, 'd' :: v <+: t → ¬p.Reads prev (u ++ '\n' :: 'd' :: v) rest) :
    p.PartsAt s t := by
  intro u v prev rest hu hv hsuf hpre hreads
  obtain ⟨z, rfl⟩ := hsuf
  rw [List.getLast?_append_of_ne_nil z hu] at hend
  obtain ⟨y, rfl⟩ := List.getLast?_eq_some_iff.1 hend
  obtain ⟨t, rfl⟩ := List.isPrefixOf_iff_prefix.1 ht
  obtain ⟨c, v, rfl⟩ := List.exists_cons_of_ne_nil hv
  have hc : c = 'd' := (List.cons_prefix_cons.1 hpre).1
  subst hc
  exact h y v prev rest hpre (by simpa using hreads)

theorem partsAt_genericName : genericName.PartsAt s t := by
  refine partsAt_of_seam hend ht fun u v prev rest hpre hreads => ?_
  obtain ⟨a, b, c, heq, ha, hb, hc, verb, hverb, hstart⟩ := reads_genericName hreads
  obtain ⟨b', hb', hv⟩ := exists_suffix_of_newline heq.symm ha hc
  cases b' with
  | nil =>
    -- The verb and the mark of the section are beginnings of one text.
    have hmark : "diff --git".toList <+: t := List.isPrefixOf_iff_prefix.1 ht
    have hverb' : verb.toList <+: t := by
      rw [List.nil_append] at hv
      exact (hv ▸ hstart).trans hpre
    have hall : ∀ s ∈ genericVerbs, ¬s.toList <+: "diff --git".toList ∧
        ¬"diff --git".toList <+: s.toList := by decide
    rcases List.prefix_or_prefix_of_prefix hverb' hmark with h | h
    · exact (hall verb hverb).1 h
    · exact (hall verb hverb).2 h
  | cons x b' =>
    obtain ⟨rfl, -⟩ := List.cons.inj hv
    exact absurd (hb 'd' (hb'.subset List.mem_cons_self)) (by decide)

theorem partsAt_placeholder : placeholder.PartsAt s t := by
  refine partsAt_of_seam hend ht fun u v prev rest hpre hreads => ?_
  obtain ⟨w', hforms, b, hb, verb, hverb, heq⟩ := reads_placeholder hreads
  obtain ⟨u', x, y, v', rfl, hx, hy⟩ := exists_append_of_forms hforms
  obtain rfl : x = '\n' := hx.elim id id
  have hall : ∀ s ∈ placeholderVerbs, '\n' ∉ s.toList ∧
    s.toList.head? ≠ some 'd' ∧ s.toList.head? ≠ some 'D' := by decide
  obtain ⟨hnewline, hsmall, hcapital⟩ := hall verb hverb
  obtain ⟨b', hb', hv⟩ := exists_suffix_of_newline heq.symm (by decide) hnewline
  cases b' with
  | nil =>
    have hhead : verb.toList.head? = some y := by
      rw [List.nil_append] at hv
      rw [← hv, List.head?_cons]
    rcases hy with rfl | rfl
    · exact hsmall hhead
    · exact hcapital hhead
  | cons z b' =>
    obtain ⟨rfl, -⟩ := List.cons.inj hv
    have hblank := hb y (hb'.subset List.mem_cons_self)
    rcases hy with rfl | rfl <;> exact absurd hblank (by decide)

end

end Authorship

end PatchReview
