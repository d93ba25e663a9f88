import PatchReview.Proofs.Pattern.Blanks
import PatchReview.Proofs.Text.Lines

/-!
Searching a text whose lines get a margin of blanks. A pattern that passes newlines only among
blanks has the same matches with the margin as without it. Main statements: `count_margin` and
`occurs_margin`.
-/

set_option autoImplicit false

namespace PatchReview

namespace Text

def IsMargin (w : Text) : Prop := ∀ c ∈ w, isBlank c ∧ c ≠ '\n'

instance (w : Text) : Decidable (IsMargin w) := List.decidableBAll _ w

theorem IsMargin.blank {w : Text} (hw : IsMargin w) : ∀ c ∈ w, isBlank c := fun c hc => (hw c hc).1

theorem IsMargin.newline_notMem {w : Text} (hw : IsMargin w) : '\n' ∉ w := fun h => (hw _ h).2 rfl

/-- The text with `w` put in behind every newline. -/
def inset (w : Text) : Text → Text
  | [] => []
  | c :: t => if c = '\n' then c :: (w ++ inset w t) else c :: inset w t

@[simp] theorem inset_newline (w t : Text) : inset w ('\n' :: t) = '\n' :: (w ++ inset w t) := rfl

theorem inset_cons_of_ne {w : Text} {c : Char} (h : c ≠ '\n') (t : Text) :
    inset w (c :: t) = c :: inset w t := if_neg h

theorem inset_of_notMem {w t : Text} (h : '\n' ∉ t) : inset w t = t := by
  induction t with
  | nil => rfl
  | cons c t ih =>
    rw [List.mem_cons, not_or] at h
    rw [inset_cons_of_ne (Ne.symm h.1), ih h.2]

theorem inset_append (w s t : Text) : inset w (s ++ t) = inset w s ++ inset w t := by
  induction s with
  | nil => rfl
  | cons c s ih =>
    by_cases hc : c = '\n'
    · simp [inset, hc, ih]
    · simp [inset, hc, ih]

theorem head?_inset (w t : Text) : (inset w t).head? = t.head? := by
  cases t with
  | nil => rfl
  | cons c t =>
    rw [inset]
    split <;> rfl

theorem unlines_map_append (w : Text) {ls : List Text} (hne : ls ≠ []) (h : ∀ l ∈ ls, '\n' ∉ l) :
    unlines (ls.map (w ++ ·)) = w ++ inset w (unlines ls) := by
  induction ls with
  | nil => exact absurd rfl hne
  | cons l ls ih =>
    have hl : inset w l = l := inset_of_notMem (h l List.mem_cons_self)
    cases ls with
    | nil => rw [List.map_singleton, unlines, unlines, hl]
    | cons m ls =>
      have htail := ih (List.cons_ne_nil m ls) fun k hk => h k (List.mem_cons_of_mem l hk)
      rw [List.map_cons, unlines_cons_of_ne_nil _ (by simp), htail, unlines_cons_cons, inset_append,
        hl, inset_newline, List.append_assoc]

def indented (w t : Text) : Text := unlines ((lines t).map (w ++ ·))

theorem lines_indented {w : Text} (hw : '\n' ∉ w) (t : Text) :
    lines (indented w t) = (lines t).map (w ++ ·) := by
  refine lines_unlines (fun hnil => lines_ne_nil t (List.map_eq_nil_iff.1 hnil)) fun l hl => ?_
  obtain ⟨k, hk, rfl⟩ := List.mem_map.1 hl
  rw [List.mem_append, not_or]
  exact ⟨hw, newline_notMem_of_mem_lines hk⟩

end Text

open Text (IsMargin inset)

namespace Cursor

variable {w : Text}

/-- The second cursor stands at the same place of the text with the margin. -/
structure Aligned (w : Text) (c c' : Cursor) : Prop where
  rest : c'.rest = inset w c.rest
  word : c'.prev.any isWord = c.prev.any isWord

namespace Aligned

variable {c c' : Cursor} (h : Aligned w c c')
include h

theorem head? : c'.rest.head? = c.rest.head? := by
  rw [h.rest, Text.head?_inset]

theorem beforeBlank : c'.beforeBlank = c.beforeBlank := by
  rw [Cursor.beforeBlank, Cursor.beforeBlank, h.head?]

theorem atWordEdge : c'.atWordEdge = c.atWordEdge := by
  rw [Cursor.atWordEdge, Cursor.atWordEdge, h.head?, h.word]

end Aligned

theorem aligned_behind_margin (hw : IsMargin w) {n n' : Nat} {prev prev' : Option Char} {t : Text}
    (hprev : prev.any isWord = false) (hprev' : prev'.any isWord = false) :
    Aligned w ⟨n, prev, t⟩ ⟨n', Pattern.behind prev' w, inset w t⟩ :=
  ⟨rfl, (any_isWord_behind hw.blank hprev').trans hprev.symm⟩

theorem Aligned.afterBlanks (hw : IsMargin w) {c c' : Cursor} (h : Aligned w c c') :
    Aligned w c.afterBlanks c'.afterBlanks := by
  obtain ⟨n, prev, t⟩ := c
  obtain ⟨n', prev', t'⟩ := c'
  obtain rfl : t' = inset w t := h.rest
  induction t generalizing n prev n' prev' with
  | nil => exact h
  | cons x t ih =>
    by_cases hx : isBlank x
    · rw [afterBlanks_cons hx]
      by_cases hnewline : x = '\n'
      · subst hnewline
        rw [Text.inset_newline, afterBlanks_cons hx, afterBlanks_append hw.blank]
        exact ih _ _ _ _ (aligned_behind_margin hw rfl rfl)
      · rw [Text.inset_cons_of_ne hnewline, afterBlanks_cons hx]
        exact ih _ _ _ _ ⟨rfl, rfl⟩
    · rw [Bool.not_eq_true] at hx
      have hblank : Cursor.beforeBlank ⟨n, prev, x :: t⟩ = false := hx
      rw [afterBlanks_of_not_beforeBlank hblank,
        afterBlanks_of_not_beforeBlank (h.beforeBlank.trans hblank)]
      exact h

end Cursor

namespace Pattern

open Cursor (Aligned)

/-- With the margin the pattern has the same ends. -/
def AllAlike (w : Text) (p : Pattern) : Prop :=
  ∀ ⦃c c' : Cursor⦄, Aligned w c c' → List.Forall₂ (Aligned w) (p.ends c) (p.ends c')

/-- With the margin the preferred end is the same. -/
def FirstAlike (w : Text) (p : Pattern) : Prop :=
  ∀ ⦃c c' : Cursor⦄, Aligned w c c' → Option.Rel (Aligned w) (p.ends c).head? (p.ends c').head?

variable {w : Text} {p q : Pattern}

theorem allAlike_empty : AllAlike w empty := fun _ _ h => .cons h .nil

theorem allAlike_wordEdge : AllAlike w wordEdge := by
  intro c c' h
  rw [ends, ends, h.atWordEdge]
  split
  case isTrue => exact .cons h .nil
  case isFalse => exact .nil

theorem forall₂_ends_one {accepts : Char → Bool} {c c' : Cursor} (h : Aligned w c c')
    (hnewline : c.rest.head? = some '\n' → accepts '\n' = false) :
    List.Forall₂ (Aligned w) ((one accepts).ends c) ((one accepts).ends c') := by
  obtain ⟨n, prev, t⟩ := c
  obtain ⟨n', prev', t'⟩ := c'
  obtain rfl : t' = inset w t := h.rest
  cases t with
  | nil => exact .nil
  | cons x t =>
    by_cases hx : accepts x
    · have hne : x ≠ '\n' := by
        rintro rfl
        exact absurd ((hnewline rfl).symm.trans hx) (by decide)
      simp only [ends, Text.inset_cons_of_ne hne, oneEnds, hx, if_true]
      exact .cons ⟨rfl, rfl⟩ .nil
    · simp only [ends, inset]
      split <;> simp [oneEnds, hx]

theorem allAlike_one {accepts : Char → Bool} (hnewline : accepts '\n' = false) :
    AllAlike w (one accepts) :=
  fun _ _ h => forall₂_ends_one h fun _ => hnewline

theorem AllAlike.append (hp : AllAlike w p) (hq : AllAlike w q) : AllAlike w (p ++ q) := by
  intro c c' h
  rw [ends_append, ends_append]
  exact List.rel_flatMap (hp h) fun _ _ hd => hq hd

theorem AllAlike.alt (hp : AllAlike w p) (hq : AllAlike w q) : AllAlike w (p ||| q) :=
  fun _ _ h => List.rel_append (hp h) (hq h)

theorem allAlike_ofText {s : Text} (hs : '\n' ∉ s) : AllAlike w (ofText s) := by
  have hone {x : Char} (hx : '\n' ≠ x) : AllAlike w (one (· == x)) := by
    have hother : ('\n' == x) = false := beq_eq_false_iff_ne.2 hx
    exact allAlike_one hother
  fun_induction ofText s with
  | case1 => exact allAlike_empty
  | case2 c => exact hone (List.ne_of_not_mem_cons hs)
  | case3 c s _ ih =>
    exact (hone (List.ne_of_not_mem_cons hs)).append (ih (List.not_mem_of_not_mem_cons hs))

theorem allAlike_firstOf {ps : List Pattern} (h : ∀ p ∈ ps, AllAlike w p) :
    AllAlike w (firstOf ps) := by
  fun_induction firstOf ps with
  | case1 => exact allAlike_one rfl
  | case2 p => exact h p (List.mem_singleton_self p)
  | case3 p ps _ ih =>
    exact (h p List.mem_cons_self).alt (ih fun q hq => h q (List.mem_cons_of_mem p hq))

theorem allAlike_words {l : List String} (h : ∀ s ∈ l, '\n' ∉ s.toList) : AllAlike w (words l) := by
  refine allAlike_firstOf fun p hp => ?_
  obtain ⟨s, hs, rfl⟩ := List.mem_map.1 hp
  exact allAlike_ofText (h s hs)

theorem rel_head? {α β : Type} {R : α → β → Prop} {as : List α} {bs : List β}
    (h : List.Forall₂ R as bs) : Option.Rel R as.head? bs.head? := by
  cases h with
  | nil => exact .none
  | cons h _ => exact .some h

theorem AllAlike.first (hp : AllAlike w p) : FirstAlike w p := fun _ _ h => rel_head? (hp h)

theorem AllAlike.ends_eq_nil (hp : AllAlike w p) {c c' : Cursor} (h : Aligned w c c')
    (hnil : p.ends c = []) : p.ends c' = [] := by
  have hends := hp h
  rwa [hnil, List.forall₂_nil_left_iff] at hends

theorem FirstAlike.exists_end (hp : FirstAlike w p) {c c' d : Cursor} (h : Aligned w c c')
    (hd : (p.ends c).head? = some d) : ∃ e, (p.ends c').head? = some e ∧ Aligned w d e := by
  have hfirst := hp h
  rw [hd] at hfirst
  exact exists_of_rel hfirst

theorem AllAlike.append_first (hp : AllAlike w p) (hq : FirstAlike w q) :
    FirstAlike w (p ++ q) := by
  intro c c' h
  rw [ends_append, ends_append]
  have hends := hp h
  generalize p.ends c = ds at hends
  generalize p.ends c' = ds' at hends
  induction hends with
  | nil => exact .none
  | cons hd _ ih =>
    rw [List.flatMap_cons, List.flatMap_cons, List.head?_append, List.head?_append]
    exact rel_or (hq hd) ih

section
variable (hw : IsMargin w)
include hw

theorem AllAlike.blanks_append (hskips : q.skipsBlanks) (hq : AllAlike w q) :
    AllAlike w (blanks ++ q) := by
  intro c c' h
  rw [ends_blanks_append hskips, ends_blanks_append hskips]
  exact hq (h.afterBlanks hw)

theorem AllAlike.someBlanks_append (hskips : q.skipsBlanks) (hq : AllAlike w q) :
    AllAlike w (someBlanks ++ q) := by
  intro c c' h
  rw [ends_someBlanks_append hskips, ends_someBlanks_append hskips, h.beforeBlank]
  split
  case isTrue => exact hq (h.afterBlanks hw)
  case isFalse => exact .nil

theorem firstAlike_someBlanks : FirstAlike w someBlanks := by
  intro c c' h
  rw [head?_ends_someBlanks, head?_ends_someBlanks, h.beforeBlank]
  split
  case isTrue => exact .some (h.afterBlanks hw)
  case isFalse => exact .none

theorem firstAlike_blanks_one {accepts : Char → Bool} (haccepts : ∀ x, isBlank x → accepts x) :
    FirstAlike w (blanks ++ one accepts) := by
  intro c c' h
  rw [head?_ends_blanks_one haccepts, head?_ends_blanks_one haccepts, h.beforeBlank]
  refine rel_or (rel_head? (forall₂_ends_one (h.afterBlanks hw) fun hnewline => ?_)) ?_
  · -- A newline is a blank, so it does not come behind the blanks.
    have hblank := c.beforeBlank_afterBlanks
    rw [Cursor.beforeBlank, hnewline] at hblank
    exact absurd hblank (by decide)
  · split
    case isTrue => exact .some (h.afterBlanks hw)
    case isFalse => exact .none

end

section
variable (hskips : p.skipsBlanks)
include hskips

theorem spansFrom_append_of_blanks {n : Nat} {prev : Option Char} {v : Text}
    (hv : ∀ x ∈ v, isBlank x) (t : Text) :
    p.spansFrom n prev 0 (v ++ t) = p.spansFrom (n + v.length) (behind prev v) 0 t := by
  induction v generalizing n prev with
  | nil => rfl
  | cons x v ih =>
    have hblank : Cursor.beforeBlank ⟨n, prev, x :: (v ++ t)⟩ := hv x List.mem_cons_self
    have hnone : p.firstEndAt? ⟨n, prev, x :: (v ++ t)⟩ = none := by
      rw [firstEndAt?_eq_head?, ends_of_beforeBlank hskips hblank]
      rfl
    rw [List.cons_append, spansFrom_of_no_end hnone, add_length_cons, behind_cons]
    exact ih fun y hy => hv y (List.mem_cons_of_mem x hy)

theorem countFrom_append_of_blanks {n : Nat} {prev : Option Char} {v : Text}
    (hv : ∀ x ∈ v, isBlank x) (t : Text) :
    p.countFrom ⟨n, prev, v ++ t⟩ = p.countFrom ⟨n + v.length, behind prev v, t⟩ :=
  congrArg List.length (spansFrom_append_of_blanks hskips hv t)

variable (hw : IsMargin w) (hp : FirstAlike w p)
include hw hp

theorem countFrom_of_aligned {c c' : Cursor} (h : Aligned w c c') :
    p.countFrom c' = p.countFrom c := by
  have hmin := minLength_pos_of_skipsBlanks hskips
  refine countFrom_eq_of_rel hmin (R := Aligned w) ?_ ?_ ?_ h
  · intro c c' h hnil
    have hnil' : c'.rest = [] := by rw [h.rest, hnil]; rfl
    rw [countFrom, hnil']
    rfl
  · intro n prev x t c' h hnone
    have hnone' : p.firstEndAt? c' = none := by
      have hfirst := hp h
      rw [← firstEndAt?_eq_head?, ← firstEndAt?_eq_head?, hnone] at hfirst
      exact eq_none_of_rel hfirst
    obtain ⟨n', prev', t'⟩ := c'
    obtain rfl : t' = inset w (x :: t) := h.rest
    by_cases hx : x = '\n'
    · -- Behind the newline the second search is carried on over the margin.
      subst hx
      have hnext : Aligned w ⟨n + 1, some '\n', t⟩
          ⟨n' + 1 + w.length, behind (some '\n') w, inset w t⟩ :=
        Cursor.aligned_behind_margin hw rfl rfl
      refine ⟨_, hnext, ?_⟩
      rw [Text.inset_newline] at hnone' ⊢
      rw [countFrom_of_no_end hnone']
      exact countFrom_append_of_blanks hskips hw.blank _
    · refine ⟨⟨n' + 1, some x, inset w t⟩, ⟨rfl, rfl⟩, ?_⟩
      rw [Text.inset_cons_of_ne hx] at hnone' ⊢
      exact countFrom_of_no_end hnone'
  · intro c c' d h hd
    rw [firstEndAt?_eq_head?] at hd
    obtain ⟨e, he, halign⟩ := hp.exists_end h hd
    rw [← firstEndAt?_eq_head?] at he
    exact ⟨e, halign, (countFrom_of_end hmin he).2⟩

/-- The margin adds no match and takes none away. -/
theorem count_margin (t : Text) : p.count (w ++ inset w t) = p.count t := by
  have hskip : p.countFrom (.atStart (w ++ inset w t)) =
      p.countFrom ⟨0 + w.length, behind none w, inset w t⟩ :=
    countFrom_append_of_blanks hskips hw.blank _
  exact hskip.trans (countFrom_of_aligned hskips hw hp (Cursor.aligned_behind_margin hw rfl rfl))

theorem occurs_margin (t : Text) : p.occurs (w ++ inset w t) = p.occurs t := by
  have hmin := minLength_pos_of_skipsBlanks hskips
  rw [Bool.eq_iff_iff, ← not_iff_not, Bool.not_eq_true, Bool.not_eq_true, ← spans_eq_nil_iff hmin,
    ← spans_eq_nil_iff hmin, ← List.length_eq_zero_iff, ← List.length_eq_zero_iff]
  exact Eq.congr_left (count_margin hskips hw hp t)

end

end Pattern

end PatchReview
