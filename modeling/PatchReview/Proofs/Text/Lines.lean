import Mathlib.Data.List.TakeWhile
import PatchReview.Text.Basic

set_option autoImplicit false

namespace PatchReview.Text

theorem lines_append (a b : Text) : lines (a ++ '\n' :: b) = lines a ++ lines b := by
  induction a with
  | nil => simp [lines]
  | cons c a ih =>
    by_cases h : c = '\n'
    · simp [lines, h, ih]
    · simp only [List.cons_append, lines, h, if_false, ih]
      cases hl : lines a with
      | nil => exact absurd hl (lines_ne_nil a)
      | cons l ls => rfl

theorem lines_append_of_notMem {s : Text} (h : '\n' ∉ s) (t : Text) :
    ∃ l ls, lines t = l :: ls ∧ lines (s ++ t) = (s ++ l) :: ls := by
  obtain ⟨l, ls, ht⟩ := List.exists_cons_of_ne_nil (lines_ne_nil t)
  refine ⟨l, ls, ht, ?_⟩
  induction s with
  | nil => exact ht
  | cons c s ih =>
    simp only [List.mem_cons, not_or] at h
    simp [lines, Ne.symm h.1, ih h.2]

theorem lines_cons_of_ne {c : Char} (h : c ≠ '\n') (t : Text) :
    ∃ l ls, lines t = l :: ls ∧ lines (c :: t) = (c :: l) :: ls :=
  lines_append_of_notMem (s := [c]) (by simpa using Ne.symm h) t

theorem isPrefix_of_lines {t l : Text} {ls : List Text} (h : lines t = l :: ls) : l <+: t := by
  rw [← unlines_lines t, h]
  cases ls with
  | nil => exact List.prefix_rfl
  | cons m ms => exact List.prefix_append l _

theorem exists_count_of_infix {t l w : Text} {n : Nat} (hl : (lines t)[n]? = some l)
    (hw : w <:+: l) : ∃ x y, t = x ++ (w ++ y) ∧ x.count '\n' = n := by
  induction t generalizing n l with
  | nil =>
    cases n with
    | zero =>
      obtain rfl : [] = l := Option.some.inj hl
      obtain rfl := List.eq_nil_of_infix_nil hw
      exact ⟨[], [], rfl, rfl⟩
    | succ n => simp [lines] at hl
  | cons c t ih =>
    by_cases hc : c = '\n'
    · subst hc
      rw [lines, if_pos rfl] at hl
      cases n with
      | zero =>
        obtain rfl : [] = l := Option.some.inj hl
        obtain rfl := List.eq_nil_of_infix_nil hw
        exact ⟨[], _, rfl, rfl⟩
      | succ n =>
        obtain ⟨x, y, rfl, hx⟩ := ih hl hw
        exact ⟨'\n' :: x, y, rfl, by simp [hx]⟩
    · obtain ⟨m, ms, ht, hct⟩ := lines_cons_of_ne hc t
      have hlater {n : Nat} {k : Text} (hk : (lines t)[n]? = some k) (hwk : w <:+: k) :
          ∃ x y, c :: t = x ++ (w ++ y) ∧ x.count '\n' = n := by
        obtain ⟨x, y, rfl, hx⟩ := ih hk hwk
        exact ⟨c :: x, y, rfl, by rw [List.count_cons_of_ne hc, hx]⟩
      rw [hct] at hl
      cases n with
      | zero =>
        obtain rfl : c :: m = l := Option.some.inj hl
        rcases List.infix_cons_iff.1 hw with hpre | hin
        · obtain ⟨y, hy⟩ := hpre.trans ((List.cons_prefix_cons).2 ⟨rfl, isPrefix_of_lines ht⟩)
          exact ⟨[], y, hy.symm, rfl⟩
        · exact hlater (by rw [ht]; rfl) hin
      | succ n => exact hlater (by rw [ht]; exact hl) hw

theorem infix_of_count {w : Text} (hw : '\n' ∉ w) (x y : Text) :
    ∃ l, (lines (x ++ (w ++ y)))[x.count '\n']? = some l ∧ w <:+: l := by
  induction x with
  | nil =>
    obtain ⟨l, ls, -, hlines⟩ := lines_append_of_notMem hw y
    exact ⟨w ++ l, by simp [hlines], (List.prefix_append w l).isInfix⟩
  | cons c x ih =>
    obtain ⟨l, hl, hin⟩ := ih
    by_cases hc : c = '\n'
    · subst hc
      exact ⟨l, by simpa [lines] using hl, hin⟩
    · obtain ⟨m, ms, ht, hct⟩ := lines_cons_of_ne hc (x ++ (w ++ y))
      rw [List.cons_append, hct, List.count_cons_of_ne hc]
      rw [ht] at hl
      cases hn : x.count '\n' with
      | zero =>
        rw [hn] at hl
        obtain rfl : m = l := Option.some.inj hl
        exact ⟨c :: m, rfl, hin.trans (List.suffix_cons c m).isInfix⟩
      | succ n =>
        rw [hn] at hl
        exact ⟨l, hl, hin⟩

theorem exists_of_append_eq {x u a y : Text} {c : Char} (h : x ++ u = a ++ c :: y) (hu : c ∉ u) :
    ∃ z, x = a ++ c :: z ∧ y = z ++ u := by
  rcases List.append_eq_append_iff.1 h with ⟨z, rfl, hz⟩ | ⟨z, rfl, hz⟩
  · exact absurd (hz ▸ List.mem_append_right z List.mem_cons_self) hu
  · cases z with
    | nil =>
      rw [List.nil_append] at hz
      exact absurd (hz ▸ List.mem_cons_self) hu
    | cons d z =>
      obtain ⟨rfl, rfl⟩ := List.cons.inj hz
      exact ⟨z, rfl, rfl⟩

theorem eq_or_exists_of_append_cons_eq {a b x y : Text} {c : Char} (h : a ++ c :: b = x ++ c :: y)
    (ha : c ∉ a) : x = a ∨ ∃ z, x = a ++ c :: z ∧ b = z ++ c :: y := by
  rcases List.append_eq_append_iff.1 h with ⟨z, rfl, hz⟩ | ⟨z, rfl, hz⟩
  · cases z with
    | nil => exact .inl (List.append_nil a)
    | cons d z =>
      obtain ⟨rfl, rfl⟩ := List.cons.inj hz
      exact .inr ⟨z, rfl, rfl⟩
  · cases z with
    | nil => exact .inl (List.append_nil x).symm
    | cons d z =>
      obtain ⟨rfl, -⟩ := List.cons.inj hz
      exact absurd (List.mem_append_right x List.mem_cons_self) ha

def ended (ls : List Text) : Text := ls.flatMap (· ++ ['\n'])

@[simp] theorem ended_cons (l : Text) (ls : List Text) :
    ended (l :: ls) = l ++ '\n' :: ended ls := by simp [ended]

theorem lines_ended {ls : List Text} (h : ∀ l ∈ ls, '\n' ∉ l) : lines (ended ls) = ls ++ [[]] := by
  induction ls with
  | nil => rfl
  | cons l ls ih =>
    have hl := h l List.mem_cons_self
    rw [ended_cons, lines_append_newline hl, ih fun m hm => h m (List.mem_cons_of_mem l hm)]
    rfl

theorem surplus_unlines_cons {plus minus : Char} (hplus : '\n' ≠ plus) (hminus : '\n' ≠ minus)
    (l : Text) (ls : List Text) :
    surplus plus minus (unlines (l :: ls)) =
      surplus plus minus l + surplus plus minus (unlines ls) := by
  cases ls with
  | nil => simp [unlines, surplus]
  | cons m ms =>
    simp only [unlines_cons_cons, surplus, List.count_append, List.count_cons_of_ne hplus,
      List.count_cons_of_ne hminus]
    omega

theorem trimStart_cons_blank {c : Char} (hc : isBlank c) (t : Text) :
    trimStart (c :: t) = trimStart t := by
  simp [trimStart, hc]

theorem trimStart_append_of_blanks {v : Text} (hv : ∀ c ∈ v, isBlank c) (t : Text) :
    trimStart (v ++ t) = trimStart t := List.dropWhile_append_of_pos hv

theorem trim_append_of_blanks {v : Text} (hv : ∀ c ∈ v, isBlank c) (t : Text) :
    trim (v ++ t) = trim t := by
  rw [trim, trim, trimStart_append_of_blanks hv]

theorem trimStart_eq_self {t : Text} (h : t.head?.all (!isBlank ·)) : trimStart t = t := by
  cases t with
  | nil => rfl
  | cons c t =>
    have hc : isBlank c = false := by simpa using h
    simp [trimStart, hc]

theorem trimEnd_eq_self {t : Text} (h : t.getLast?.all (!isBlank ·)) : trimEnd t = t := by
  have hr : trimStart t.reverse = t.reverse := trimStart_eq_self (by simpa using h)
  simp only [trimStart] at hr
  rw [trimEnd, hr, List.reverse_reverse]

theorem trim_eq_self {t : Text} (hh : t.head?.all (!isBlank ·))
    (hl : t.getLast?.all (!isBlank ·)) : trim t = t := by
  rw [trim, trimStart_eq_self hh, trimEnd_eq_self hl]

theorem trim_cons_blank {c : Char} (hc : isBlank c) (t : Text) : trim (c :: t) = trim t := by
  rw [trim, trim, trimStart_cons_blank hc]

theorem mem_of_mem_trim {c : Char} {t : Text} (h : c ∈ trim t) : c ∈ t := by
  have hrev := (List.dropWhile_suffix _).subset (List.mem_reverse.1 h)
  exact (List.dropWhile_suffix _).subset (List.mem_reverse.1 hrev)

theorem trim_ne_of_notMem {c : Char} {t u : Text} (hc : c ∉ t) (hu : c ∈ u) : trim t ≠ u := by
  rintro rfl
  exact hc (mem_of_mem_trim hu)

theorem all_of_dropWhile {p : Char → Bool} {t : Text} (h : ∀ c ∈ t.dropWhile p, p c) :
    ∀ c ∈ t, p c := by
  intro c hc
  rw [← List.takeWhile_append_dropWhile (p := p) (l := t), List.mem_append] at hc
  exact hc.elim List.mem_takeWhile_imp (h c)

theorem trim_ne_nil {c : Char} {t : Text} (hc : c ∈ t) (h : isBlank c = false) : trim t ≠ [] := by
  intro hnil
  have hall : ∀ x ∈ (trimStart t).reverse, isBlank x :=
    List.dropWhile_eq_nil_iff.1 (List.reverse_eq_nil_iff.1 hnil)
  have hblank := all_of_dropWhile (fun x hx => hall x (List.mem_reverse.2 hx)) c hc
  exact Bool.false_ne_true (h.symm.trans hblank)

theorem before_of_notMem {mark : Char} {t : Text} (h : mark ∉ t) : before mark t = t := by
  rw [before, List.takeWhile_eq_self_iff]
  intro c hc
  have hne : c ≠ mark := fun he => h (he ▸ hc)
  simpa using hne

end PatchReview.Text
