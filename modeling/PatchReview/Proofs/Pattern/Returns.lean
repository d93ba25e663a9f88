import PatchReview.Proofs.Pattern.Matches

/-!
Searching texts that differ in how their lines end. A pattern that takes a carriage return and a
newline for blanks, or takes neither, sees no difference: its search runs alike in both texts.
Main statement: `count_eq_of_withReturns`.
-/

set_option autoImplicit false

namespace PatchReview

/-- The second text, with a carriage return before some of its newlines. -/
inductive Text.WithReturns : Text → Text → Prop where
  | nil : WithReturns [] []
  | cons {t t' : Text} (c : Char) : WithReturns t t' → WithReturns (c :: t) (c :: t')
  | returned {t t' : Text} : WithReturns t t' → WithReturns ('\r' :: '\n' :: t) ('\n' :: t')

namespace Text

theorem WithReturns.append_left {t t' : Text} (h : WithReturns t t') (s : Text) :
    WithReturns (s ++ t) (s ++ t') := by
  induction s with
  | nil => exact h
  | cons c s ih => exact .cons c ih

end Text

namespace Pattern

open Text (WithReturns)

def skipsNewline : Pattern → Bool
  | one accepts => !accepts '\n'
  | seq p _ => skipsNewline p
  | alt p q => skipsNewline p && skipsNewline q
  | empty | many _ | few _ | wordEdge | textStart | lineStart | textEnd | notAhead _ => false

/-- A newline that comes next is passed first, among others of its kind. -/
def passesNewline : Pattern → Bool
  | seq (many accepts) q => accepts '\n' && skipsNewline q
  | _ => false

/-- A carriage return before a newline makes no difference. A single character that may be either
of the two must be the first of a run of them. -/
def ignoresReturns : Pattern → Bool
  | empty => true
  | one accepts => !accepts '\r' && !accepts '\n'
  | many accepts => accepts '\r' == accepts '\n'
  | seq (one accepts) q =>
    ignoresReturns q && (accepts '\r' == accepts '\n') && (!accepts '\n' || passesNewline q)
  | seq p q => ignoresReturns p && ignoresReturns q
  | alt p q => ignoresReturns p && ignoresReturns q
  | few _ | wordEdge | textStart | lineStart | textEnd | notAhead _ => false

/-- Both searches fail, or both end before texts that differ in carriage returns alone. -/
def SameEnd : Option Cursor → Option Cursor → Prop :=
  Option.Rel fun d d' => WithReturns d.rest d'.rest

theorem SameEnd.or {x x' y y' : Option Cursor} (hx : SameEnd x x') (hy : SameEnd y y') :
    SameEnd (x.or y) (x'.or y') :=
  rel_or hx hy

theorem SameEnd.or_again {x y x' y' : Option Cursor} (hx : SameEnd x (x'.or y'))
    (hy : SameEnd y y') : SameEnd (x.or y) (x'.or y') := by
  cases x with
  | some d => exact hx
  | none =>
    generalize hr : x'.or y' = r at hx ⊢
    cases hx
    rw [(Option.or_eq_none_iff.1 hr).2] at hy
    exact hy

theorem firstEnd?_of_skipsNewline {p : Pattern} (hp : p.skipsNewline) (n : Nat)
    (prev : Option Char) (t : Text) (k : Cursor → Option Cursor) :
    p.firstEnd? ⟨n, prev, '\n' :: t⟩ k = none := by
  induction p generalizing k with
  | one accepts =>
    have hno : accepts '\n' = false := by simpa [skipsNewline] using hp
    simp [firstEnd?, oneThen, hno]
  | seq p q ihp ihq => exact ihp hp _
  | alt p q ihp ihq =>
    simp only [skipsNewline, Bool.and_eq_true] at hp
    simp only [firstEnd?, ihp hp.1, ihq hp.2, Option.or_none]
  | _ => simp [skipsNewline] at hp

theorem firstEnd?_of_passesNewline {p : Pattern} (hp : p.passesNewline) (n : Nat)
    (prev : Option Char) (t : Text) (k : Cursor → Option Cursor) :
    p.firstEnd? ⟨n, prev, '\n' :: t⟩ k = p.firstEnd? ⟨n + 1, some '\n', t⟩ k := by
  unfold passesNewline at hp
  split at hp
  case h_1 accepts q =>
    simp only [Bool.and_eq_true] at hp
    simp only [firstEnd?, manyThen, hp.1, if_true, firstEnd?_of_skipsNewline hp.2, Option.or_none]
  case h_2 => simp at hp

section
variable {k k' : Cursor → Option Cursor}
  (hk : ∀ d d' : Cursor, WithReturns d.rest d'.rest → SameEnd (k d) (k' d'))
include hk

theorem sameEnd_manyThen {accepts : Char → Bool} (hacc : accepts '\r' = accepts '\n')
    {t t' : Text} (h : WithReturns t t') (n n' : Nat) (prev prev' : Option Char) :
    SameEnd (manyThen accepts k n prev t) (manyThen accepts k' n' prev' t') := by
  induction h generalizing n n' prev prev' with
  | nil => exact hk _ _ .nil
  | @cons t t' c h ih =>
    have hstop := hk ⟨n, prev, c :: t⟩ ⟨n', prev', c :: t'⟩ (.cons c h)
    by_cases hc : accepts c
    · simp only [manyThen, hc, if_true]
      exact (ih _ _ _ _).or hstop
    · simpa [manyThen, hc] using hstop
  | @returned t t' h ih =>
    have hstop := hk ⟨n, prev, '\r' :: '\n' :: t⟩ ⟨n', prev', '\n' :: t'⟩ (.returned h)
    by_cases hc : accepts '\n'
    · -- Stopping between the two characters comes to the same as stopping before the newline.
      have hbetween := hk ⟨n + 1, some '\r', '\n' :: t⟩ ⟨n', prev', '\n' :: t'⟩ (.cons _ h)
      have hnext := (ih (n + 1 + 1) (n' + 1) (some '\n') (some '\n')).or hbetween
      simp only [manyThen, hacc, hc, if_true]
      exact hnext.or_again hstop
    · simpa [manyThen, hacc, hc] using hstop

theorem sameEnd_oneThen {accepts : Char → Bool} (hr : accepts '\r' = false)
    (hn : accepts '\n' = false) {t t' : Text} (h : WithReturns t t') (n n' : Nat) :
    SameEnd (oneThen accepts k n t) (oneThen accepts k' n' t') := by
  cases h with
  | nil => exact .none
  | @cons t t' c h =>
    by_cases hc : accepts c
    · simpa [oneThen, hc] using hk ⟨n + 1, some c, t⟩ ⟨n' + 1, some c, t'⟩ h
    · simpa [oneThen, hc] using .none
  | returned h => simpa [oneThen, hr, hn] using .none

end

theorem sameEnd_firstEnd? {p : Pattern} (hp : p.ignoresReturns) {k k' : Cursor → Option Cursor}
    (hk : ∀ d d' : Cursor, WithReturns d.rest d'.rest → SameEnd (k d) (k' d')) {c c' : Cursor}
    (h : WithReturns c.rest c'.rest) : SameEnd (p.firstEnd? c k) (p.firstEnd? c' k') := by
  fun_induction ignoresReturns p generalizing k k' c c' with
  | case1 => exact hk c c' h
  | case2 accepts =>
    simp only [Bool.and_eq_true, Bool.not_eq_true'] at hp
    exact sameEnd_oneThen hk hp.1 hp.2 h _ _
  | case3 accepts => exact sameEnd_manyThen hk (by simpa using hp) h _ _ _ _
  | case4 accepts q ih =>
    simp only [Bool.and_eq_true, Bool.or_eq_true, beq_iff_eq, Bool.not_eq_true'] at hp
    obtain ⟨⟨hq, hacc⟩, hpass⟩ := hp
    have hnext (d d' : Cursor) (hd : WithReturns d.rest d'.rest) :
        SameEnd (q.firstEnd? d k) (q.firstEnd? d' k') := ih hq hk hd
    obtain ⟨n, prev, t⟩ := c
    obtain ⟨n', prev', t'⟩ := c'
    cases h with
    | returned ht =>
      by_cases hn : accepts '\n'
      · have hpass' : q.passesNewline := by simpa [hn] using hpass
        simp only [firstEnd?, oneThen, hacc, hn, if_true, firstEnd?_of_passesNewline hpass']
        exact hnext _ _ ht
      · rw [Bool.not_eq_true] at hn
        exact sameEnd_oneThen hnext (hacc.trans hn) hn (.returned ht) _ _
    | nil => exact .none
    | @cons t t' x ht =>
      by_cases hx : accepts x
      · simpa [firstEnd?, oneThen, hx] using hnext ⟨n + 1, some x, t⟩ ⟨n' + 1, some x, t'⟩ ht
      · simpa [firstEnd?, oneThen, hx] using .none
  | case5 p q hne ihp ihq =>
    simp only [Bool.and_eq_true] at hp
    exact ihp hp.1 (fun d d' hd => ihq hp.2 hk hd) h
  | case6 p q ihp ihq =>
    simp only [Bool.and_eq_true] at hp
    exact (ihp hp.1 hk h).or (ihq hp.2 hk h)
  | _ => simp at hp

theorem sameEnd_firstEndAt? {p : Pattern} (hp : p.ignoresReturns) {c c' : Cursor}
    (h : WithReturns c.rest c'.rest) : SameEnd (p.firstEndAt? c) (p.firstEndAt? c') :=
  sameEnd_firstEnd? hp (fun _ _ hd => .some hd) h

theorem count_eq_of_withReturns {p : Pattern} (hmin : 0 < p.minLength)
    (hignores : p.ignoresReturns) {t t' : Text} (h : WithReturns t t') : p.count t = p.count t' := by
  have hstart : WithReturns (Cursor.atStart t).rest (Cursor.atStart t').rest := h
  refine (countFrom_eq_of_rel hmin (R := fun c c' => WithReturns c.rest c'.rest)
    ?_ ?_ ?_ hstart).symm
  · intro c c' h hnil
    obtain ⟨n', prev', u'⟩ := c'
    rw [hnil] at h
    cases h
    rfl
  · intro n prev x u c' h hnone
    have hsame := sameEnd_firstEndAt? hignores h
    rw [hnone] at hsame
    obtain ⟨n', prev', u'⟩ := c'
    cases h with
    | cons _ h => exact ⟨_, h, countFrom_of_no_end (eq_none_of_rel hsame)⟩
    -- Behind the carriage return the newline is still ahead, in both texts.
    | returned h => exact ⟨_, .cons _ h, rfl⟩
  · intro c c' d h hd
    have hsame := sameEnd_firstEndAt? hignores h
    rw [hd] at hsame
    obtain ⟨e, he, hrest⟩ := exists_of_rel hsame
    exact ⟨e, hrest, (countFrom_of_end hmin he).2⟩

end Pattern

end PatchReview
