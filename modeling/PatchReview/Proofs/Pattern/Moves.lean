import PatchReview.Proofs.Pattern.Margins

/-!
Searching a text that stands further down. Of what is before it a pattern may ask whether it ends in
a word character, and blanks do not, so behind blanks the matches are the same, moved by their
number. Main statement: `spans_append_of_blanks`.
-/

set_option autoImplicit false

namespace PatchReview

/-- The second cursor stands before the same text, `k` characters further on. -/
structure Cursor.Moved (k : Nat) (c c' : Cursor) : Prop where
  offset : c'.offset = c.offset + k
  rest : c'.rest = c.rest
  word : c'.prev.any isWord = c.prev.any isWord

theorem Cursor.Moved.atWordEdge {k : Nat} {c c' : Cursor} (h : Moved k c c') :
    c'.atWordEdge = c.atWordEdge := by
  rw [Cursor.atWordEdge, Cursor.atWordEdge, h.rest, h.word]

def Span.moved (k : Nat) (s : Span) : Span := { s with start := s.start + k }

namespace Pattern

open Cursor (Moved)

variable {k : Nat}

theorem forall₂_oneEnds (accepts : Char → Bool) (n : Nat) (t : Text) :
    List.Forall₂ (Moved k) (oneEnds accepts n t) (oneEnds accepts (n + k) t) := by
  cases t with
  | nil => exact .nil
  | cons x t =>
    simp only [oneEnds]
    split
    · exact .cons ⟨Nat.add_right_comm n k 1, rfl, rfl⟩ .nil
    · exact .nil

theorem forall₂_manyEnds (accepts : Char → Bool) {n n' : Nat} {prev prev' : Option Char} {t : Text}
    (h : Moved k ⟨n, prev, t⟩ ⟨n', prev', t⟩) :
    List.Forall₂ (Moved k) (manyEnds accepts n prev t) (manyEnds accepts n' prev' t) := by
  induction t generalizing n n' prev prev' with
  | nil => exact .cons h .nil
  | cons x t ih =>
    obtain ⟨hoffset, -, -⟩ := id h
    obtain rfl : n' = n + k := hoffset
    rw [manyEnds, manyEnds]
    split
    · exact List.rel_append (ih ⟨Nat.add_right_comm n k 1, rfl, rfl⟩) (.cons h .nil)
    · exact .cons h .nil

theorem forall₂_anchor {ok ok' : Bool} {c c' : Cursor} (h : Moved k c c') (hok : ok' = ok) :
    List.Forall₂ (Moved k) (if ok then [c] else []) (if ok' then [c'] else []) := by
  subst hok
  split
  · exact .cons h .nil
  · exact .nil

theorem forall₂_ends {p : Pattern} (hp : p.isLocal) {c c' : Cursor} (h : Moved k c c') :
    List.Forall₂ (Moved k) (p.ends c) (p.ends c') := by
  induction p generalizing c c' with
  | empty => exact .cons h .nil
  | one accepts =>
    rw [ends, ends, h.offset, h.rest]
    exact forall₂_oneEnds accepts c.offset c.rest
  | many accepts =>
    obtain ⟨n, prev, t⟩ := c
    obtain ⟨n', prev', t'⟩ := c'
    obtain rfl : t' = t := h.rest
    exact forall₂_manyEnds accepts h
  | few accepts =>
    obtain ⟨n, prev, t⟩ := c
    obtain ⟨n', prev', t'⟩ := c'
    obtain rfl : t' = t := h.rest
    rw [ends, ends, fewEnds_eq_reverse, fewEnds_eq_reverse, List.forall₂_reverse_iff]
    exact forall₂_manyEnds accepts h
  | seq p q ihp ihq =>
    rw [isLocal, Bool.and_eq_true] at hp
    exact List.rel_flatMap (ihp hp.1 h) fun _ _ hd => ihq hp.2 hd
  | alt p q ihp ihq =>
    rw [isLocal, Bool.and_eq_true] at hp
    exact List.rel_append (ihp hp.1 h) (ihq hp.2 h)
  | wordEdge => exact forall₂_anchor h h.atWordEdge
  | textEnd => exact forall₂_anchor h (by rw [Cursor.atTextEnd, Cursor.atTextEnd, h.rest])
  | notAhead p ih =>
    refine forall₂_anchor h ?_
    rw [Bool.eq_iff_iff, List.isEmpty_iff_length_eq_zero, List.isEmpty_iff_length_eq_zero,
      (ih hp h).length_eq]
  | textStart | lineStart => simp [isLocal] at hp

variable {p : Pattern} (hp : p.isLocal)
include hp

theorem matchLength?_moved {c c' : Cursor} (h : Moved k c c') :
    p.matchLength? c' = p.matchLength? c := by
  have hends := forall₂_ends hp h
  rw [matchLength?, matchLength?, firstEndAt?_eq_head?, firstEndAt?_eq_head?]
  generalize p.ends c = ds at hends
  generalize p.ends c' = ds' at hends
  cases hends with
  | nil => rfl
  | cons hd _ => simp [hd.offset, h.offset, Nat.add_sub_add_right]

theorem spansFrom_moved {n taken : Nat} {prev prev' : Option Char} {t : Text}
    (hprev : prev'.any isWord = prev.any isWord) :
    p.spansFrom (n + k) prev' taken t = (p.spansFrom n prev taken t).map (·.moved k) := by
  induction t generalizing n taken prev prev' with
  | nil => rfl
  | cons c t ih =>
    have hnext (taken : Nat) : p.spansFrom (n + k + 1) (some c) taken t =
        (p.spansFrom (n + 1) (some c) taken t).map (·.moved k) := by
      rw [Nat.add_right_comm]
      exact ih rfl
    cases taken with
    | succ j => exact hnext j
    | zero =>
      have hmoved : Moved k ⟨n, prev, c :: t⟩ ⟨n + k, prev', c :: t⟩ := ⟨rfl, rfl, hprev⟩
      rw [spansFrom, spansFrom, matchLength?_moved hp hmoved]
      cases p.matchLength? ⟨n, prev, c :: t⟩ with
      | none => exact hnext 0
      | some j => simp only [hnext, List.map_cons, Span.moved]

theorem spans_append_of_blanks (hskips : p.skipsBlanks) {v : Text} (hv : ∀ x ∈ v, isBlank x)
    (t : Text) : p.spans (v ++ t) = (p.spans t).map (·.moved v.length) := by
  rw [spans, spans, spansFrom_append_of_blanks hskips hv]
  exact spansFrom_moved hp (Cursor.any_isWord_behind hv rfl)

end Pattern

end PatchReview
