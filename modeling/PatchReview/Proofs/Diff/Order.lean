import PatchReview.Proofs.Diff.Composition
import PatchReview.Proofs.Fallible

set_option autoImplicit false

namespace PatchReview.Diff

/-- A text that begins with a git mark and ends in a newline. -/
structure IsGitText (s : Text) : Prop where
  starts : isGitMark s
  ends : s.getLast? = some '\n'

def filesOf (s : Text) : List FileDiff :=
  match Document.parse s with
  | .ok d => d.files
  | .error _ => []

theorem filesOf_of_parse {s : Text} {d : Document} (h : Document.parse s = .ok d) :
    filesOf s = d.files := by
  rw [filesOf, h]

theorem isGitMark_flatten {s : Text} {ss : List Text} (h : ∀ m ∈ s :: ss, IsGitText m) :
    isGitMark (s :: ss).flatten := by
  rw [List.flatten_cons, isGitMark, startsWith, List.isPrefixOf_iff_prefix]
  exact (List.isPrefixOf_iff_prefix.1 (h s List.mem_cons_self).starts).trans
    (List.prefix_append s ss.flatten)

theorem parse_flatten_cons {s : Text} {ss : List Text} (h : ∀ m ∈ s :: ss, IsGitText m) :
    Document.parse (s :: ss).flatten = (do
      let a ← Document.parse s
      let b ← Document.parse ss.flatten
      .ok ⟨a.files ++ b.files⟩) := by
  have hs := h s List.mem_cons_self
  have hss : ∀ m ∈ ss, IsGitText m := fun m hm => h m (List.mem_cons_of_mem s hm)
  refine Document.parse_of_chunks_append ?_
  rw [List.flatten_cons]
  cases ss with
  | nil => simp [chunks, lines, Text.lines, dropLastEmpty, dropReturn, sectionsBy]
  | cons m ms =>
    refine chunks_append hs.ends ?_ (isGitMark_flatten hss)
    rw [← any_isGitMark_lines]
    exact any_isGitMark_of_isGitMark hs.starts

theorem parse_flatten_of_ok {ss : List Text} (h : ∀ s ∈ ss, IsGitText s)
    (hok : ∀ s ∈ ss, ∃ d, Document.parse s = .ok d) :
    Document.parse ss.flatten = .ok ⟨ss.flatMap filesOf⟩ := by
  induction ss with
  | nil => rfl
  | cons s ss ih =>
    obtain ⟨d, hd⟩ := hok s List.mem_cons_self
    have hrest := ih (fun m hm => h m (List.mem_cons_of_mem s hm))
      fun m hm => hok m (List.mem_cons_of_mem s hm)
    rw [parse_flatten_cons h, hd, hrest, List.flatMap_cons, filesOf_of_parse hd]
    rfl

theorem parse_of_parse_flatten {ss : List Text} (h : ∀ s ∈ ss, IsGitText s) {d : Document}
    (hd : Document.parse ss.flatten = .ok d) : ∀ s ∈ ss, ∃ d, Document.parse s = .ok d := by
  induction ss generalizing d with
  | nil => simp
  | cons s ss ih =>
    rw [parse_flatten_cons h, bind_eq_ok] at hd
    obtain ⟨a, ha, hd⟩ := hd
    obtain ⟨b, hb, -⟩ := bind_eq_ok.1 hd
    intro m hm
    rcases List.mem_cons.1 hm with rfl | hm
    · exact ⟨a, ha⟩
    · exact ih (fun m hm => h m (List.mem_cons_of_mem s hm)) hb m hm

theorem agree_parse_flatten {ss ss' : List Text} (hperm : ss.Perm ss')
    (h : ∀ s ∈ ss, IsGitText s) :
    Agree (fun d d' => d.files = ss.flatMap filesOf ∧ d'.files = ss'.flatMap filesOf)
      (Document.parse ss.flatten) (Document.parse ss'.flatten) := by
  have h' : ∀ s ∈ ss', IsGitText s := fun s hs => h s (hperm.mem_iff.2 hs)
  by_cases hok : ∀ s ∈ ss, ∃ d, Document.parse s = .ok d
  · rw [parse_flatten_of_ok h hok, parse_flatten_of_ok h' fun s hs => hok s (hperm.mem_iff.2 hs)]
    exact ⟨rfl, rfl⟩
  · cases hd : Document.parse ss.flatten with
    | ok d => exact absurd (parse_of_parse_flatten h hd) hok
    | error e =>
      cases hd' : Document.parse ss'.flatten with
      | ok d =>
        have hok' := parse_of_parse_flatten h' hd'
        exact absurd (fun s hs => hok' s (hperm.mem_iff.1 hs)) hok
      | error e' => trivial

end PatchReview.Diff
