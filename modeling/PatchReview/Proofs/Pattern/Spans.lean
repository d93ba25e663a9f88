import PatchReview.Proofs.Pattern.Matches

set_option autoImplicit false

namespace PatchReview

def Span.Before (s t : Span) : Prop := s.start + s.length ≤ t.start

namespace Pattern

theorem reads_of_matchLength? {p : Pattern} {n k : Nat} {prev : Option Char} {t : Text}
    (h : p.matchLength? ⟨n, prev, t⟩ = some k) :
    ∃ w rest, t = w ++ rest ∧ w.length = k ∧ p.Reads prev w rest := by
  rw [matchLength?, firstEndAt?_eq_head?, Option.map_eq_some_iff] at h
  obtain ⟨d, hd, rfl⟩ := h
  obtain ⟨w, rest, rfl, hw, rfl⟩ := mem_ends_iff.1 (List.mem_of_head? hd)
  exact ⟨w, rest, rfl, by simp, hw⟩

theorem exists_matchLength?_of_starts {p : Pattern} {n : Nat} {prev : Option Char} {t : Text}
    (h : p.Starts prev t) : ∃ k, p.matchLength? ⟨n, prev, t⟩ = some k := by
  rw [← Option.isSome_iff_exists, isSome_matchLength?]
  exact matchesAt_iff.2 h

variable {p : Pattern} {n taken : Nat} {prev : Option Char} {t : Text}

theorem exists_of_mem_spansFrom {s : Span} (h : s ∈ p.spansFrom n prev taken t) :
    ∃ x c t', t = x ++ c :: t' ∧ taken ≤ x.length ∧ s.start = n + x.length ∧
      p.matchLength? ⟨s.start, behind prev x, c :: t'⟩ = some s.length := by
  induction t generalizing n taken prev with
  | nil => simp [spansFrom] at h
  | cons c t ih =>
    have hlater {j k : Nat} (hj : j ≤ k + 1) (hs : s ∈ p.spansFrom (n + 1) (some c) k t) :
        ∃ x d t', c :: t = x ++ d :: t' ∧ j ≤ x.length ∧ s.start = n + x.length ∧
          p.matchLength? ⟨s.start, behind prev x, d :: t'⟩ = some s.length := by
      obtain ⟨x, d, t', rfl, hk, hstart, hlength⟩ := ih hs
      exact ⟨c :: x, d, t', rfl, by simp; omega, by simp; omega, hlength⟩
    cases taken with
    | succ k => exact hlater (Nat.le_refl _) h
    | zero =>
      rw [spansFrom] at h
      cases hmatch : p.matchLength? ⟨n, prev, c :: t⟩ with
      | none =>
        rw [hmatch] at h
        exact hlater (Nat.zero_le _) h
      | some k =>
        rw [hmatch] at h
        rcases List.mem_cons.1 h with rfl | h
        · exact ⟨[], c, t, rfl, Nat.zero_le _, rfl, hmatch⟩
        · exact hlater (Nat.zero_le _) h

theorem pairwise_spansFrom : (p.spansFrom n prev taken t).Pairwise Span.Before := by
  induction t generalizing n taken prev with
  | nil => exact .nil
  | cons c t ih =>
    cases taken with
    | succ k => exact ih
    | zero =>
      rw [spansFrom]
      cases p.matchLength? ⟨n, prev, c :: t⟩ with
      | none => exact ih
      | some k =>
        refine .cons (fun s hs => ?_) ih
        -- the characters of the match are taken when the search goes on
        obtain ⟨x, d, t', -, htaken, hstart, -⟩ := exists_of_mem_spansFrom hs
        change n + k ≤ s.start
        omega

theorem pairwise_spans (p : Pattern) (t : Text) : (p.spans t).Pairwise Span.Before :=
  pairwise_spansFrom

theorem exists_of_mem_spans {s : Span} (h : s ∈ p.spans t) :
    ∃ x w rest, t = x ++ (w ++ rest) ∧ s.start = x.length ∧ s.length = w.length ∧
      p.Reads (behind none x) w rest := by
  obtain ⟨x, c, t', rfl, -, hstart, hlength⟩ := exists_of_mem_spansFrom h
  obtain ⟨w, rest, ht, hw, hreads⟩ := reads_of_matchLength? hlength
  exact ⟨x, w, rest, by rw [ht], by simpa using hstart, hw.symm, hreads⟩

theorem exists_spanFrom_of_starts {x y : Text} (hy : y ≠ []) (htaken : taken ≤ x.length)
    (h : p.Starts (behind prev x) y) :
    ∃ s ∈ p.spansFrom n prev taken (x ++ y),
      s.start ≤ n + x.length ∧ n + x.length ≤ s.start + (s.length - 1) := by
  induction x generalizing n taken prev with
  | nil =>
    obtain rfl : taken = 0 := by simpa using htaken
    obtain ⟨c, t, rfl⟩ := List.exists_cons_of_ne_nil hy
    rw [behind_nil] at h
    obtain ⟨k, hk⟩ := exists_matchLength?_of_starts (n := n) h
    refine ⟨⟨n, k⟩, ?_, Nat.le_refl n, Nat.le_add_right n _⟩
    rw [List.nil_append, spansFrom, hk]
    exact List.mem_cons_self
  | cons c x ih =>
    have hlater {k : Nat} (hk : k ≤ x.length) : ∃ s ∈ p.spansFrom (n + 1) (some c) k (x ++ y),
        s.start ≤ n + (c :: x).length ∧ n + (c :: x).length ≤ s.start + (s.length - 1) := by
      rw [add_length_cons]
      exact ih hk h
    cases taken with
    | succ k => exact hlater (Nat.le_of_succ_le_succ htaken)
    | zero =>
      rw [List.cons_append, spansFrom]
      cases p.matchLength? ⟨n, prev, c :: (x ++ y)⟩ with
      | none => exact hlater (Nat.zero_le _)
      | some k =>
        by_cases hk : k - 1 ≤ x.length
        · obtain ⟨s, hs, hplace⟩ := hlater hk
          exact ⟨s, List.mem_cons_of_mem _ hs, hplace⟩
        · refine ⟨⟨n, k⟩, List.mem_cons_self, Nat.le_add_right n _, ?_⟩
          simp only [List.length_cons]
          omega

/-- A place at which the pattern could match begins a match or lies in one that began before. -/
theorem exists_span_of_starts {x y : Text} (hy : y ≠ []) (h : p.Starts (behind none x) y) :
    ∃ s ∈ p.spans (x ++ y), s.start ≤ x.length ∧ x.length ≤ s.start + (s.length - 1) := by
  obtain ⟨s, hs, hstart, hend⟩ := exists_spanFrom_of_starts (n := 0) hy (Nat.zero_le _) h
  exact ⟨s, hs, by omega, by omega⟩

/-- Where the first character of a match comes nowhere else in it, no place at which the pattern could
match lies inside a match that began before. -/
theorem exists_span_at_iff {p : Pattern} {c : Char}
    (hfirst : ∀ {prev w rest}, p.Reads prev w rest → ∃ u, w = c :: u ∧ c ∉ u) {x t : Text} :
    (∃ s ∈ p.spans (x ++ t), s.start = x.length) ↔ p.Starts (behind none x) t := by
  constructor
  · rintro ⟨s, hs, hstart⟩
    obtain ⟨x', w, rest, heq, hx', -, hw⟩ := exists_of_mem_spans hs
    obtain ⟨rfl, rfl⟩ := List.append_inj heq (hstart.symm.trans hx')
    exact ⟨w, rest, rfl, hw⟩
  · rintro ⟨_, rest, rfl, hw⟩
    obtain ⟨u, rfl, -⟩ := hfirst hw
    obtain ⟨s, hs, hstart, hend⟩ := exists_span_of_starts (by simp) ⟨_, rest, rfl, hw⟩
    obtain ⟨x', _, rest', heq, hx', hlength, hw'⟩ := exists_of_mem_spans hs
    obtain ⟨u', rfl, hnot⟩ := hfirst hw'
    obtain ⟨y, rfl⟩ : x' <+: x :=
      List.prefix_of_prefix_length_le ⟨_, heq.symm⟩ ⟨_, rfl⟩ (hx' ▸ hstart)
    refine ⟨s, hs, ?_⟩
    cases y with
    | nil => rw [hx', List.append_nil]
    | cons d y =>
      -- The place would be in the match, behind its first character.
      simp only [List.append_assoc, List.cons_append, List.append_cancel_left_eq,
        List.cons.injEq] at heq
      have hinside : y.length < u'.length := by
        simp only [List.length_append, List.length_cons] at hend hlength
        omega
      obtain ⟨z, rfl⟩ : y <+: u' :=
        List.prefix_of_prefix_length_le ⟨_, heq.2⟩ ⟨_, rfl⟩ (Nat.le_of_lt hinside)
      rw [List.append_assoc, List.append_cancel_left_eq] at heq
      cases z with
      | nil => simp at hinside
      | cons e z =>
        obtain ⟨rfl, -⟩ := List.cons.inj heq.2
        exact absurd (List.mem_append_right y List.mem_cons_self) hnot

/-- The spans are those of a search that goes through the text from left to right. -/
structure IsScan (p : Pattern) (t : Text) (spans : List Span) : Prop where
  matches_at : ∀ s ∈ spans, ∃ x y, t = x ++ y ∧ s.start = x.length ∧
    p.matchLength? ⟨s.start, behind none x, y⟩ = some s.length
  pairwise : spans.Pairwise Span.Before
  covers : ∀ x y, t = x ++ y → y ≠ [] → p.Starts (behind none x) y →
    ∃ s ∈ spans, s.start ≤ x.length ∧ x.length ≤ s.start + (s.length - 1)

theorem isScan_spans (p : Pattern) (t : Text) : p.IsScan t (p.spans t) where
  matches_at s hs := by
    obtain ⟨x, c, t', ht, -, hstart, hlength⟩ := exists_of_mem_spansFrom hs
    exact ⟨x, c :: t', ht, by simpa using hstart, hlength⟩
  pairwise := pairwise_spans p t
  covers x y ht hy h := ht ▸ exists_span_of_starts hy h

/-- Characters that a word of the pattern may begin with, and possibly others. -/
def mayBegin : Pattern → Char → Bool
  | one accepts, c | many accepts, c | few accepts, c => accepts c
  | seq p q, c => mayBegin p c || (p.minLength == 0 && mayBegin q c)
  | alt p q, c => mayBegin p c || mayBegin q c
  | empty, _ | wordEdge, _ | textStart, _ | lineStart, _ | textEnd, _ | notAhead _, _ => false

theorem mayBegin_of_reads {p : Pattern} {prev : Option Char} {c : Char} {w rest : Text}
    (h : p.Reads prev (c :: w) rest) : p.mayBegin c := by
  induction p generalizing prev w rest with
  | empty => simp [Reads] at h
  | one accepts =>
    obtain ⟨d, hd, hacc⟩ := h
    exact (List.cons.inj hd).1 ▸ hacc
  | many accepts => exact h c List.mem_cons_self
  | few accepts => exact h c List.mem_cons_self
  | seq p q ihp ihq =>
    obtain ⟨u, v, huv, hu, hv⟩ := h
    rw [mayBegin, Bool.or_eq_true, Bool.and_eq_true, beq_iff_eq]
    cases u with
    | nil =>
      rw [List.nil_append] at huv
      have hzero : p.minLength = 0 := Nat.le_zero.1 (minLength_le_length hu)
      exact .inr ⟨hzero, ihq (huv ▸ hv)⟩
    | cons d u =>
      obtain ⟨rfl, -⟩ := List.cons.inj huv
      exact .inl (ihp hu)
  | alt p q ihp ihq =>
    rw [mayBegin, Bool.or_eq_true]
    exact h.imp ihp ihq
  | wordEdge | textStart | lineStart | textEnd | notAhead => simp [Reads] at h

end Pattern

end PatchReview
