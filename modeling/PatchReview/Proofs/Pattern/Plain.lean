import Mathlib.Data.List.Forall2
import PatchReview.Proofs.Pattern.Reading

/-!
Plain patterns. They look at nothing but the words they read, so where one matches depends on the
text ahead alone. Main statements: `exists_reads_of_caseless`, without regard to case the same words
are read in other forms, and `count_append`, the matches in two joined texts are those in both if
no word that is read goes over the seam.
-/

set_option autoImplicit false

namespace PatchReview

def Cursor.skip (c : Cursor) (k : Nat) : Cursor :=
  ⟨c.offset + k, Pattern.behind c.prev (c.rest.take k), c.rest.drop k⟩

theorem Cursor.skip_skip (c : Cursor) (j k : Nat) : (c.skip j).skip k = c.skip (j + k) := by
  simp [skip, List.take_add, Nat.add_assoc]

namespace Pattern

/-- No part of the pattern looks at what is around the word that is read. -/
def isPlain : Pattern → Bool
  | empty | one _ | many _ | few _ => true
  | seq p q | alt p q => isPlain p && isPlain q
  | wordEdge | textStart | lineStart | textEnd | notAhead _ => false

/-- One character is read where the other is, without regard to case. -/
def IsForm (x c : Char) : Prop := x = foldCase c ∨ x = (foldCase c).toUpper

theorem exists_isForm {accepts : Char → Bool} {c : Char} (h : acceptsFolded accepts c) :
    ∃ x, IsForm x c ∧ accepts x := by
  rw [acceptsFolded, Bool.or_eq_true] at h
  rcases h with h | h
  · exact ⟨_, .inl rfl, h⟩
  · exact ⟨_, .inr rfl, h⟩

theorem exists_forms {accepts : Char → Bool} {w : Text} (h : ∀ c ∈ w, acceptsFolded accepts c) :
    ∃ w', List.Forall₂ IsForm w' w ∧ ∀ x ∈ w', accepts x := by
  induction w with
  | nil => exact ⟨[], .nil, by simp⟩
  | cons c w ih =>
    obtain ⟨x, hx, hacc⟩ := exists_isForm (h c List.mem_cons_self)
    obtain ⟨w', hw', hall⟩ := ih fun d hd => h d (List.mem_cons_of_mem c hd)
    exact ⟨x :: w', .cons hx hw', by simpa [hacc] using hall⟩

theorem exists_append_of_forms {w' u v : Text} {c d : Char}
    (h : List.Forall₂ IsForm w' (u ++ c :: d :: v)) :
    ∃ u' x y v', w' = u' ++ x :: y :: v' ∧ IsForm x c ∧ IsForm y d := by
  induction u generalizing w' with
  | nil =>
    obtain ⟨x, _, hx, hrest, rfl⟩ := List.forall₂_cons_right_iff.1 h
    obtain ⟨y, v', hy, -, rfl⟩ := List.forall₂_cons_right_iff.1 hrest
    exact ⟨[], x, y, v', rfl, hx, hy⟩
  | cons e u ih =>
    obtain ⟨z, _, -, hrest, rfl⟩ := List.forall₂_cons_right_iff.1 h
    obtain ⟨u', x, y, v', rfl, hx, hy⟩ := ih hrest
    exact ⟨z :: u', x, y, v', rfl, hx, hy⟩

theorem exists_reads_of_caseless {p : Pattern} (hp : p.isPlain) {prev : Option Char} {w rest : Text}
    (h : (caseless p).Reads prev w rest) :
    ∃ w', List.Forall₂ IsForm w' w ∧ ∀ prev' rest', p.Reads prev' w' rest' := by
  induction p generalizing prev w rest with
  | empty =>
    obtain rfl : w = [] := h
    exact ⟨[], .nil, fun _ _ => rfl⟩
  | one accepts =>
    obtain ⟨c, rfl, hc⟩ := h
    obtain ⟨x, hx, hacc⟩ := exists_isForm hc
    exact ⟨[x], .cons hx .nil, fun _ _ => ⟨x, rfl, hacc⟩⟩
  | many accepts =>
    obtain ⟨w', hw', hall⟩ := exists_forms h
    exact ⟨w', hw', fun _ _ => hall⟩
  | few accepts =>
    obtain ⟨w', hw', hall⟩ := exists_forms h
    exact ⟨w', hw', fun _ _ => hall⟩
  | seq p q ihp ihq =>
    rw [isPlain, Bool.and_eq_true] at hp
    obtain ⟨u, v, rfl, hu, hv⟩ := h
    obtain ⟨u', hu', hpu⟩ := ihp hp.1 hu
    obtain ⟨v', hv', hqv⟩ := ihq hp.2 hv
    exact ⟨u' ++ v', List.rel_append hu' hv', fun _ _ => ⟨u', v', rfl, hpu _ _, hqv _ _⟩⟩
  | alt p q ihp ihq =>
    rw [isPlain, Bool.and_eq_true] at hp
    rcases h with h | h
    · obtain ⟨w', hw', hread⟩ := ihp hp.1 h
      exact ⟨w', hw', fun _ _ => .inl (hread _ _)⟩
    · obtain ⟨w', hw', hread⟩ := ihq hp.2 h
      exact ⟨w', hw', fun _ _ => .inr (hread _ _)⟩
  | wordEdge | textStart | lineStart | textEnd | notAhead => simp [isPlain] at hp

def oneLengths (accepts : Char → Bool) : Text → List Nat
  | [] => []
  | c :: _ => if accepts c then [1] else []

def manyLengths (accepts : Char → Bool) : Text → List Nat
  | [] => [0]
  | c :: rest => if accepts c then (manyLengths accepts rest).map (1 + ·) ++ [0] else [0]

def lengths : Pattern → Text → List Nat
  | empty, _ => [0]
  | one accepts, t => oneLengths accepts t
  | many accepts, t => manyLengths accepts t
  | few accepts, t => (manyLengths accepts t).reverse
  | seq p q, t => (lengths p t).flatMap fun k => (lengths q (t.drop k)).map (k + ·)
  | alt p q, t => lengths p t ++ lengths q t
  | wordEdge, _ | textStart, _ | lineStart, _ | textEnd, _ | notAhead _, _ => []

theorem oneEnds_eq (accepts : Char → Bool) (c : Cursor) :
    oneEnds accepts c.offset c.rest = (oneLengths accepts c.rest).map c.skip := by
  obtain ⟨n, prev, t⟩ := c
  cases t with
  | nil => rfl
  | cons x t => by_cases h : accepts x <;> simp [oneEnds, oneLengths, h, Cursor.skip]

theorem manyEnds_eq (accepts : Char → Bool) (c : Cursor) :
    manyEnds accepts c.offset c.prev c.rest = (manyLengths accepts c.rest).map c.skip := by
  obtain ⟨n, prev, t⟩ := c
  induction t generalizing n prev with
  | nil => rfl
  | cons x t ih =>
    by_cases h : accepts x
    · have hskip : Cursor.skip ⟨n + 1, some x, t⟩ =
          fun k => Cursor.skip ⟨n, prev, x :: t⟩ (1 + k) := by
        funext k
        simp [Cursor.skip, Nat.add_assoc, Nat.add_comm 1 k]
      simp only [manyEnds, manyLengths, h, if_true, ih, hskip, List.map_append, List.map_map]
      rfl
    · simp only [manyEnds, manyLengths, h]
      rfl

/-- The ends of a plain pattern lie behind the words it reads next. -/
theorem ends_eq {p : Pattern} (hp : p.isPlain) (c : Cursor) :
    p.ends c = (p.lengths c.rest).map c.skip := by
  induction p generalizing c with
  | empty => rfl
  | one accepts => exact oneEnds_eq accepts c
  | many accepts => exact manyEnds_eq accepts c
  | few accepts => rw [ends, fewEnds_eq_reverse, manyEnds_eq, lengths, List.map_reverse]
  | seq p q ihp ihq =>
    rw [isPlain, Bool.and_eq_true] at hp
    simp only [ends, lengths, ihp hp.1, List.flatMap_map, List.map_flatMap, List.map_map]
    congr 1
    funext k
    rw [ihq hp.2]
    congr 1
    funext j
    exact Cursor.skip_skip c k j
  | alt p q ihp ihq =>
    rw [isPlain, Bool.and_eq_true] at hp
    rw [ends, lengths, List.map_append, ihp hp.1, ihq hp.2]
  | wordEdge | textStart | lineStart | textEnd | notAhead => simp [isPlain] at hp

theorem matchLength?_eq {p : Pattern} (hp : p.isPlain) (c : Cursor) :
    p.matchLength? c = (p.lengths c.rest).head? := by
  rw [matchLength?, firstEndAt?_eq_head?, ends_eq hp, List.head?_map, Option.map_map]
  cases (p.lengths c.rest).head? <;> simp [Cursor.skip]

theorem filter_map_add (k n : Nat) (l : List Nat) :
    (l.map (k + ·)).filter (· ≤ n) =
      if k ≤ n then (l.filter (· ≤ n - k)).map (k + ·) else [] := by
  rw [List.filter_map]
  split
  · congr 2
    funext j
    simp only [Function.comp_apply, decide_eq_decide]
    omega
  · rw [List.map_eq_nil_iff, List.filter_eq_nil_iff]
    intro j _
    simp only [Function.comp_apply, decide_eq_true_eq]
    omega

theorem flatMap_eq_flatMap_filter {α β : Type} {f g : α → List β} {keeps : α → Bool}
    (hin : ∀ a, keeps a = true → f a = g a) (hout : ∀ a, keeps a = false → f a = [])
    (l : List α) : l.flatMap f = (l.filter keeps).flatMap g := by
  induction l with
  | nil => rfl
  | cons a l ih =>
    cases h : keeps a with
    | true => simp [h, ih, hin a h]
    | false => simp [h, ih, hout a h]

theorem filter_oneLengths (accepts : Char → Bool) (s t : Text) :
    (oneLengths accepts (s ++ t)).filter (· ≤ s.length) = oneLengths accepts s := by
  cases s with
  | nil =>
    cases t with
    | nil => rfl
    | cons c t => by_cases h : accepts c <;> simp [oneLengths, h]
  | cons c s => by_cases h : accepts c <;> simp [oneLengths, h]

theorem filter_manyLengths (accepts : Char → Bool) (s t : Text) :
    (manyLengths accepts (s ++ t)).filter (· ≤ s.length) = manyLengths accepts s := by
  induction s with
  | nil =>
    cases t with
    | nil => rfl
    | cons c t => by_cases h : accepts c <;> simp [manyLengths, h]
  | cons c s ih =>
    by_cases h : accepts c
    · simp [manyLengths, h, filter_map_add, ih]
    · simp [manyLengths, h]

theorem filter_lengths (p : Pattern) (s t : Text) :
    (p.lengths (s ++ t)).filter (· ≤ s.length) = p.lengths s := by
  induction p generalizing s with
  | empty => simp [lengths]
  | one accepts => exact filter_oneLengths accepts s t
  | many accepts => exact filter_manyLengths accepts s t
  | few accepts => rw [lengths, List.filter_reverse, filter_manyLengths, lengths]
  | seq p q ihp ihq =>
    have hbehind (k : Nat) (hk : k ≤ s.length) :
        ((q.lengths ((s ++ t).drop k)).map (k + ·)).filter (· ≤ s.length) =
          (q.lengths (s.drop k)).map (k + ·) := by
      rw [filter_map_add, if_pos hk, List.drop_append_of_le_length hk, ← List.length_drop, ihq]
    -- A word of the first part that ends behind the seam is followed by none that ends before it.
    have hover (k : Nat) (hk : ¬k ≤ s.length) :
        ((q.lengths ((s ++ t).drop k)).map (k + ·)).filter (· ≤ s.length) = [] := by
      rw [filter_map_add, if_neg hk]
    rw [lengths, List.filter_flatMap, lengths, ← ihp s]
    exact flatMap_eq_flatMap_filter (fun k hk => hbehind k (of_decide_eq_true hk))
      (fun k hk => hover k (of_decide_eq_false hk)) _
  | alt p q ihp ihq => rw [lengths, List.filter_append, ihp, ihq, lengths]
  | _ => rfl

theorem le_of_mem_lengths {p : Pattern} {t : Text} {k : Nat} (h : k ∈ p.lengths t) :
    k ≤ t.length := by
  have hfilter := filter_lengths p t []
  rw [List.append_nil] at hfilter
  rw [← hfilter, List.mem_filter] at h
  simpa using h.2

theorem reads_of_mem_lengths {p : Pattern} (hp : p.isPlain) {t : Text} {k : Nat}
    (h : k ∈ p.lengths t) (prev : Option Char) : p.Reads prev (t.take k) (t.drop k) := by
  have hle := le_of_mem_lengths h
  have hmem : (Cursor.mk 0 prev t).skip k ∈ p.ends ⟨0, prev, t⟩ := by
    rw [ends_eq hp]
    exact List.mem_map_of_mem h
  obtain ⟨w, rest, rfl, hw, heq⟩ := mem_ends_iff.1 hmem
  have hk : k = w.length := by simpa [Cursor.skip] using congrArg Cursor.offset heq
  simpa [hk] using hw

/-- No word that the pattern reads goes from the first text over into the second. -/
def PartsAt (p : Pattern) (s t : Text) : Prop :=
  ∀ u v prev rest, u ≠ [] → v ≠ [] → u <:+ s → v <+: t → ¬p.Reads prev (u ++ v) rest

variable {p : Pattern} (hp : p.isPlain)
include hp

theorem lengths_append {s t : Text} (h : p.PartsAt s t) {u : Text} (hne : u ≠ []) (hu : u <:+ s) :
    p.lengths (u ++ t) = p.lengths u := by
  rw [← filter_lengths p u t, eq_comm, List.filter_eq_self]
  intro k hk
  rw [decide_eq_true_eq]
  refine Nat.le_of_not_lt fun hover => ?_
  have hreads := reads_of_mem_lengths hp hk none
  rw [List.take_append, List.take_of_length_le (by omega)] at hreads
  have hlen := le_of_mem_lengths hk
  rw [List.length_append] at hlen
  refine h u (t.take (k - u.length)) none _ hne ?_ hu (List.take_prefix _ _) hreads
  rw [← List.length_pos_iff, List.length_take]
  omega

theorem spansFrom_append {s t : Text} (h : p.PartsAt s t) {n taken : Nat} {prev : Option Char}
    (htaken : taken ≤ s.length) :
    p.spansFrom n prev taken (s ++ t) =
      p.spansFrom n prev taken s ++ p.spansFrom (n + s.length) (behind prev s) 0 t := by
  induction s generalizing n taken prev with
  | nil =>
    obtain rfl : taken = 0 := by simpa using htaken
    rfl
  | cons c s ih =>
    have htail : p.PartsAt s t := fun u v prev rest hu hv hsuf =>
      h u v prev rest hu hv (hsuf.trans (List.suffix_cons c s))
    rw [List.cons_append, add_length_cons, behind_cons]
    cases taken with
    | succ k => exact ih htail (Nat.le_of_succ_le_succ htaken)
    | zero =>
      have hahead := lengths_append hp h (List.cons_ne_nil c s) List.suffix_rfl
      rw [List.cons_append] at hahead
      simp only [spansFrom, matchLength?_eq hp, hahead]
      cases hhead : (p.lengths (c :: s)).head? with
      | none => exact ih htail (Nat.zero_le _)
      | some k =>
        have hk := le_of_mem_lengths (List.mem_of_head? hhead)
        rw [List.length_cons] at hk
        simp only [ih htail (Nat.sub_le_of_le_add hk), List.cons_append]

theorem length_spansFrom {t : Text} {n m taken : Nat} {prev prev' : Option Char} :
    (p.spansFrom n prev taken t).length = (p.spansFrom m prev' taken t).length := by
  induction t generalizing n m taken prev prev' with
  | nil => rfl
  | cons c t ih =>
    cases taken with
    | succ k => exact ih
    | zero =>
      simp only [spansFrom, matchLength?_eq hp]
      cases (p.lengths (c :: t)).head? with
      | none => exact ih
      | some k => simpa using ih

theorem count_append {s t : Text} (h : p.PartsAt s t) :
    p.count (s ++ t) = p.count s + p.count t := by
  rw [count, spans, spansFrom_append hp h (Nat.zero_le _), List.length_append]
  exact congrArg _ (length_spansFrom hp)

end Pattern

end PatchReview
