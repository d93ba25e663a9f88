import PatchReview.Text.Lowercase

/-!
Lower case of a part of a text. All characters but one have their lower case wherever they stand.
The capital sigma has one form at the end of a word and one elsewhere, so that it depends on what
is before and behind it. Main statement: `infix_lower_iff_isSettled`, a text is found in lower case
wherever it stands if and only if each capital sigma in it has its form from the text itself.
-/

set_option autoImplicit false

namespace PatchReview.Text

/-- The last character not passed over has a case; the flag says so of what is in front. -/
def endsCasedFrom (afterCased : Bool) : Text → Bool
  | [] => afterCased
  | c :: rest => endsCasedFrom (if isCaseIgnorable c then afterCased else isCased c) rest

def endsCased (t : Text) : Bool := endsCasedFrom false t

def isFinal (before behind : Text) : Bool := endsCased before && !startsCased behind

def sigma (final : Bool) : Char := if final then 'ς' else 'σ'

/-- Lower case of a text when it is given which capital sigmas are final, for what is before each
of them and what is behind it. -/
def lowerWith (final : Text → Text → Bool) : Text → Text
  | [] => []
  | c :: rest =>
    (if c == 'Σ' then [sigma (final [] rest)] else lowerChar c) ++
      lowerWith (fun p q => final (c :: p) q) rest

theorem lower_eq_lowerWith (t : Text) : lower t = lowerWith isFinal t := by
  have hfrom (afterCased : Bool) : lowerFrom afterCased t =
      lowerWith (fun p q => endsCasedFrom afterCased p && !startsCased q) t := by
    induction t generalizing afterCased with
    | nil => rfl
    | cons c t ih =>
      rw [lowerFrom, ih]
      rfl
  exact hfrom false

theorem lowerWith_append (final : Text → Text → Bool) (a b : Text) :
    lowerWith final (a ++ b) =
      lowerWith (fun p q => final p (q ++ b)) a ++ lowerWith (fun p q => final (a ++ p) q) b := by
  induction a generalizing final with
  | nil => rfl
  | cons c a ih => simp only [List.cons_append, lowerWith, ih, List.append_assoc]

def HasSigma (t p q : Text) : Prop := t = p ++ 'Σ' :: q

theorem HasSigma.append_left {t p q : Text} (h : HasSigma t p q) (a : Text) :
    HasSigma (a ++ t) (a ++ p) q := by
  rw [HasSigma, h, List.append_assoc]

theorem HasSigma.append_right {t p q : Text} (h : HasSigma t p q) (b : Text) :
    HasSigma (t ++ b) p (q ++ b) := by
  rw [HasSigma, h, List.append_assoc, List.cons_append]

theorem lowerWith_congr {final final' : Text → Text → Bool} {t : Text}
    (h : ∀ p q, HasSigma t p q → final p q = final' p q) :
    lowerWith final t = lowerWith final' t := by
  induction t generalizing final final' with
  | nil => rfl
  | cons c t ih =>
    have hrest := ih fun p q hsigma => h (c :: p) q (hsigma.append_left [c])
    rw [lowerWith, lowerWith, hrest]
    split
    case isTrue hc =>
      obtain rfl := beq_iff_eq.1 hc
      rw [h [] t rfl]
    case isFalse => rfl

theorem count_lowerWith_le {final final' : Text → Text → Bool} {d : Char} {t : Text}
    (h : ∀ p q, HasSigma t p q → [sigma (final p q)].count d ≤ [sigma (final' p q)].count d) :
    (lowerWith final t).count d ≤ (lowerWith final' t).count d := by
  induction t generalizing final final' with
  | nil => exact Nat.le_refl _
  | cons c t ih =>
    have hrest := ih fun p q hsigma => h (c :: p) q (hsigma.append_left [c])
    simp only [lowerWith, List.count_append]
    split
    case isTrue hc =>
      obtain rfl := beq_iff_eq.1 hc
      exact Nat.add_le_add (h [] t rfl) hrest
    case isFalse => exact Nat.add_le_add_left hrest _

/-- If no capital sigma gives more of a character one way than the other and one gives fewer, there
are fewer of it in all. -/
theorem count_lowerWith_lt {final final' : Text → Text → Bool} {d : Char} {t p q : Text}
    (h : ∀ p q, HasSigma t p q → [sigma (final p q)].count d ≤ [sigma (final' p q)].count d)
    (hsigma : HasSigma t p q) (hlt : [sigma (final p q)].count d < [sigma (final' p q)].count d) :
    (lowerWith final t).count d < (lowerWith final' t).count d := by
  obtain rfl : t = p ++ 'Σ' :: q := hsigma
  have hfront := count_lowerWith_le fun p' q' (hp : HasSigma p p' q') =>
    h p' (q' ++ 'Σ' :: q) (hp.append_right _)
  have hback := count_lowerWith_le fun p' q' (hq : HasSigma q p' q') =>
    h (p ++ 'Σ' :: p') q' ((hq.append_left ['Σ']).append_left p)
  have hmiddle (final : Text → Text → Bool) :
      lowerWith (fun p' q' => final (p ++ p') q') ('Σ' :: q) =
        [sigma (final p q)] ++ lowerWith (fun p' => final (p ++ 'Σ' :: p')) q := by
    simp [lowerWith]
  rw [lowerWith_append, lowerWith_append, hmiddle, hmiddle]
  simp only [List.count_append]
  omega

theorem lower_append_append (x t y : Text) : ∃ before behind,
    lower (x ++ t ++ y) =
      before ++ lowerWith (fun p q => isFinal (x ++ p) (q ++ y)) t ++ behind := by
  rw [lower_eq_lowerWith, lowerWith_append, lowerWith_append]
  exact ⟨_, _, rfl⟩

/-- Between two texts each capital sigma has the form that it has from the text itself. -/
def KeepsSigmas (x t y : Text) : Prop :=
  ∀ p q, HasSigma t p q → isFinal (x ++ p) (q ++ y) = isFinal p q

theorem KeepsSigmas.infix_lower {x t y : Text} (h : KeepsSigmas x t y) :
    lower t <:+: lower (x ++ t ++ y) := by
  obtain ⟨before, behind, heq⟩ := lower_append_append x t y
  rw [lowerWith_congr h, ← lower_eq_lowerWith] at heq
  exact ⟨before, behind, heq.symm⟩

theorem endsCasedFrom_append (afterCased : Bool) (a b : Text) :
    endsCasedFrom afterCased (a ++ b) = endsCasedFrom (endsCasedFrom afterCased a) b := by
  induction a generalizing afterCased with
  | nil => rfl
  | cons c a ih => exact ih _

theorem endsCasedFrom_of_all {t : Text} (h : t.all isCaseIgnorable) (afterCased : Bool) :
    endsCasedFrom afterCased t = afterCased := by
  induction t with
  | nil => rfl
  | cons c t ih =>
    rw [List.all_cons, Bool.and_eq_true] at h
    rw [endsCasedFrom, if_pos h.1, ih h.2]

theorem endsCasedFrom_of_not_all {t : Text} (h : t.all isCaseIgnorable = false)
    (afterCased : Bool) : endsCasedFrom afterCased t = endsCased t := by
  rw [endsCased]
  induction t generalizing afterCased with
  | nil => simp at h
  | cons c t ih =>
    rw [endsCasedFrom, endsCasedFrom]
    cases ht : t.all isCaseIgnorable with
    | true =>
      have hc : isCaseIgnorable c = false := by simpa [ht] using h
      simp [hc]
    | false => exact (ih ht _).trans (ih ht _).symm

theorem startsCased_append_of_all {t : Text} (h : t.all isCaseIgnorable) (y : Text) :
    startsCased (t ++ y) = startsCased y := by
  induction t with
  | nil => rfl
  | cons c t ih =>
    rw [List.all_cons, Bool.and_eq_true] at h
    rw [List.cons_append, startsCased, if_pos h.1, ih h.2]

theorem startsCased_append_of_not_all {t : Text} (h : t.all isCaseIgnorable = false) (y : Text) :
    startsCased (t ++ y) = startsCased t := by
  induction t with
  | nil => simp at h
  | cons c t ih =>
    rw [List.cons_append, startsCased, startsCased]
    split
    case isTrue hc => exact ih (by simpa [hc] using h)
    case isFalse => rfl

theorem not_all_of_startsCased {t : Text} (h : startsCased t) :
    t.all isCaseIgnorable = false := by
  refine Bool.eq_false_iff.2 fun hall => ?_
  have hnil := startsCased_append_of_all hall []
  rw [List.append_nil, h] at hnil
  exact absurd hnil (by decide)

theorem startsCased_append {t : Text} (h : startsCased t) (y : Text) : startsCased (t ++ y) := by
  rwa [startsCased_append_of_not_all (not_all_of_startsCased h)]

theorem endsCased_append {t : Text} (h : endsCased t) (x : Text) : endsCased (x ++ t) := by
  have hall : t.all isCaseIgnorable = false := by
    refine Bool.eq_false_iff.2 fun hall => ?_
    rw [endsCased, endsCasedFrom_of_all hall] at h
    exact absurd h (by decide)
  rwa [endsCased, endsCasedFrom_append, endsCasedFrom_of_not_all hall]

/-- More text behind a sigma can only keep it from the end of a word. -/
theorem isFinal_of_isFinal_append {p q y : Text} (h : isFinal p (q ++ y)) : isFinal p q := by
  rw [isFinal, Bool.and_eq_true, Bool.not_eq_true'] at h ⊢
  refine ⟨h.1, Bool.eq_false_iff.2 fun hcased => ?_⟩
  rw [startsCased_append hcased] at h
  exact absurd h.2 (by decide)

theorem isFinal_append {p q : Text} (h : isFinal p q) (x : Text) : isFinal (x ++ p) q := by
  rw [isFinal, Bool.and_eq_true] at h ⊢
  exact ⟨endsCased_append h.1 x, h.2⟩

/-- No capital sigma of the text needs more than the text for its form. If a character with a case
stands before it, something behind it is not passed over; if all before it is passed over, a character
with a case follows. -/
def IsSettled (t : Text) : Prop :=
  ∀ p q, HasSigma t p q →
    (endsCased p → q.all isCaseIgnorable = false) ∧ (p.all isCaseIgnorable → startsCased q)

theorem IsSettled.keepsSigmas {t : Text} (h : IsSettled t) (x y : Text) : KeepsSigmas x t y := by
  intro p q hsigma
  obtain ⟨hbehind, hfront⟩ := h p q hsigma
  have hends : endsCased (x ++ p) = endsCasedFrom (endsCased x) p := endsCasedFrom_append false x p
  rw [isFinal, isFinal, hends]
  cases hp : p.all isCaseIgnorable with
  | true => simp [hfront hp, startsCased_append (hfront hp)]
  | false =>
    rw [endsCasedFrom_of_not_all hp]
    cases hcased : endsCased p with
    | true => rw [startsCased_append_of_not_all (hbehind hcased)]
    | false => rfl

theorem count_sigma_le {final final' : Bool} (h : final → final') :
    [sigma final].count 'ς' ≤ [sigma final'].count 'ς' ∧
      [sigma final'].count 'σ' ≤ [sigma final].count 'σ' := by
  revert h
  cases final <;> cases final' <;> decide

theorem letter_facts : isCaseIgnorable 'a' = false ∧ isCased 'a' ∧ lowerChar 'a' = ['a'] := by
  decide +kernel

section
variable {t p q : Text} (hsigma : HasSigma t p q)
include hsigma

/-- A sigma at the end of the text is another one when a letter follows. -/
theorem not_infix_lower_append (hp : endsCased p) (hq : q.all isCaseIgnorable) :
    ¬lower t <:+: lower (t ++ ['a']) := by
  intro hin
  have hlower : lower (t ++ ['a']) = lowerWith (fun p q => isFinal p (q ++ ['a'])) t ++ ['a'] := by
    rw [lower_eq_lowerWith, lowerWith_append]
    simp [lowerWith, letter_facts.2.2]
  have hfinal : isFinal p q ∧ isFinal p (q ++ ['a']) = false := by
    have hnil := startsCased_append_of_all hq []
    rw [List.append_nil] at hnil
    simp [isFinal, hp, hnil, startsCased_append_of_all hq, startsCased, letter_facts]
  have hlt : (lowerWith (fun p q => isFinal p (q ++ ['a'])) t).count 'ς' < (lower t).count 'ς' := by
    rw [lower_eq_lowerWith]
    refine count_lowerWith_lt (fun _ _ _ => (count_sigma_le isFinal_of_isFinal_append).1) hsigma ?_
    rw [hfinal.1, hfinal.2]
    decide
  have hle := hin.sublist.count_le 'ς'
  rw [hlower, List.count_append] at hle
  exact absurd hle (by simpa using hlt)

theorem not_infix_lower_cons (hp : p.all isCaseIgnorable) (hq : startsCased q = false) :
    ¬lower t <:+: lower ('a' :: t) := by
  intro hin
  have hlower : lower ('a' :: t) = 'a' :: lowerWith (fun p q => isFinal ('a' :: p) q) t := by
    rw [lower_eq_lowerWith]
    simp [lowerWith, letter_facts.2.2]
  have hfinal : isFinal p q = false ∧ isFinal ('a' :: p) q := by
    simp [isFinal, hq, endsCased, endsCasedFrom, endsCasedFrom_of_all hp, letter_facts]
  have hlt : (lowerWith (fun p q => isFinal ('a' :: p) q) t).count 'σ' < (lower t).count 'σ' := by
    rw [lower_eq_lowerWith]
    refine count_lowerWith_lt
      (fun _ _ _ => (count_sigma_le fun hp => isFinal_append hp ['a']).2) hsigma ?_
    rw [hfinal.1, hfinal.2]
    decide
  have hle := hin.sublist.count_le 'σ'
  rw [hlower, List.count_cons_of_ne (by decide)] at hle
  omega

end

theorem infix_lower_iff_isSettled {t : Text} :
    (∀ x y, lower t <:+: lower (x ++ t ++ y)) ↔ IsSettled t := by
  constructor
  · intro h p q hsigma
    constructor
    · intro hp
      refine Bool.eq_false_iff.2 fun hq => not_infix_lower_append hsigma hp hq ?_
      simpa using h [] ['a']
    · intro hp
      cases hq : startsCased q with
      | true => rfl
      | false => exact absurd (by simpa using h ['a'] []) (not_infix_lower_cons hsigma hp hq)
  · intro h x y
    exact (h.keepsSigmas x y).infix_lower

end PatchReview.Text
