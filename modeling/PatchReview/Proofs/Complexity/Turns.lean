import PatchReview.Proofs.Complexity.Indentation

/-!
What one line of code in braces does to the depth of control blocks, and what many lines do. The
depth stops at zero: lines lead from a depth to where they lead from zero, or to the depth with the
openings put on and the closings taken off if that is more. Main statements: `level_eq` and
`reach_append`.
-/

set_option autoImplicit false

namespace PatchReview.Complexity.Brace

open Pattern
open Text (IsMargin)

def controlStarts : List String := ["if", "for", "while", "switch", "try"]

theorem atWordEdge_iff_of_mem {s : String} (hs : s ∈ controlStarts) {n : Nat} {prev : Option Char}
    {t : Text} : (Cursor.mk n prev (s.toList ++ t)).atWordEdge ↔ prev.any isWord = false := by
  have hall : ∀ s ∈ controlStarts, s.toList.head?.any isWord := by decide
  have hne : ∀ s ∈ controlStarts, s.toList ≠ [] := by decide
  rw [Cursor.atWordEdge, List.head?_append_of_ne_nil _ (hne s hs), hall s hs]
  simp

theorem starts_openParen {prev : Option Char} {t : Text} :
    openParen.Starts prev t ↔ ∃ v rest, t = v ++ '(' :: rest ∧ ∀ c ∈ v, isBlank c := by
  rw [openParen, starts_append]
  constructor
  · rintro ⟨v, _, rfl, hv, w, rest, rfl, hw⟩
    rw [reads_lit.1 hw]
    exact ⟨v, rest, rfl, hv⟩
  · rintro ⟨v, rest, rfl, hv⟩
    exact ⟨v, _, rfl, hv, ['('], rest, rfl, reads_lit.2 rfl⟩

theorem occurs_controlOpening_iff {t : Text} :
    controlOpening.occurs t ↔ ∃ x s v rest, t = x ++ (s.toList ++ (v ++ '(' :: rest)) ∧
      s ∈ controlStarts ∧ (∀ c ∈ v, isBlank c) ∧ (behind none x).any isWord = false := by
  have hparts : controlOpening = wordEdge ++ (words controlStarts ++ openParen) :=
    append_assoc _ _ _
  rw [occurs_iff, hparts]
  constructor
  · rintro ⟨x, _, rfl, hstarts⟩
    obtain ⟨_, _, rfl, ⟨rfl, hedge⟩, hwords⟩ := starts_append.1 hstarts
    obtain ⟨s, hs, _, rfl, hparen⟩ := starts_words_append.1 hwords
    obtain ⟨v, rest, rfl, hv⟩ := starts_openParen.1 hparen
    exact ⟨x, s, v, rest, rfl, hs, hv, (atWordEdge_iff_of_mem hs).1 hedge⟩
  · rintro ⟨x, s, v, rest, rfl, hs, hv, hprev⟩
    refine ⟨x, _, rfl, starts_append.2 ⟨[], _, rfl, ⟨rfl, ?_⟩, ?_⟩⟩
    · exact (atWordEdge_iff_of_mem hs).2 hprev
    · exact starts_words_append.2 ⟨s, hs, _, rfl, starts_openParen.2 ⟨v, rest, rfl, hv⟩⟩

theorem turn_of_opening {l : Text} (h : controlOpening.occurs l) (hl : '{' ∈ l) :
    turn l = .opens := by
  have hcontains : l.contains '{' := List.contains_iff_mem.2 hl
  rw [turn, h, hcontains]
  rfl

theorem turn_of_not_opening {l : Text} (h : controlOpening.occurs l = false ∨ '{' ∉ l)
    (htrim : Text.trim l ≠ ['}']) : turn l = .stays := by
  have hopens : (controlOpening.occurs l && l.contains '{') = false := by
    rcases h with h | h
    · rw [h, Bool.false_and]
    · have hcontains : l.contains '{' = false := by simpa using h
      rw [hcontains, Bool.and_false]
  rw [turn, hopens, beq_false_of_ne htrim]
  simp

structure StraightLine where
  text : Text
  newline_notMem : '\n' ∉ text
  open_notMem : '{' ∉ text
  close_notMem : '}' ∉ text

@[simp] theorem StraightLine.turn_text (l : StraightLine) : turn l.text = .stays :=
  turn_of_not_opening (.inr l.open_notMem)
    (Text.trim_ne_of_notMem l.close_notMem List.mem_cons_self)

structure Parens where
  before : Text
  inside : Text
  after : Text
  isMargin_before : IsMargin before
  newline_notMem : '\n' ∉ inside
  isMargin_after : IsMargin after

namespace Parens

variable (p : Parens)

def line (start : String) : Text :=
  start.toList ++ (p.before ++ '(' :: (p.inside ++ ')' :: (p.after ++ ['{'])))

theorem newline_notMem_line (start : String) (h : '\n' ∉ start.toList) :
    '\n' ∉ p.line start := by
  simp [line, h, p.isMargin_before.newline_notMem, p.newline_notMem,
    p.isMargin_after.newline_notMem]

theorem turn_line {start word : String} {lead : Text} (hstart : start.toList = lead ++ word.toList)
    (hword : word ∈ controlStarts) (hlead : (behind none lead).any isWord = false) :
    turn (p.line start) = .opens := by
  have hoccurs : controlOpening.occurs (p.line start) := by
    refine occurs_controlOpening_iff.2
      ⟨lead, word, p.before, p.inside ++ ')' :: (p.after ++ ['{']), ?_⟩
    rw [line, hstart, List.append_assoc]
    exact ⟨rfl, hword, p.isMargin_before.blank, hlead⟩
  exact turn_of_opening hoccurs (by simp [line])

theorem turn_line_of_mem {word : String} (hword : word ∈ controlStarts) :
    turn (p.line word) = .opens :=
  p.turn_line (List.nil_append _).symm hword rfl

@[simp] theorem turn_line_if : turn (p.line "if") = .opens := p.turn_line_of_mem (by decide)

/-- The line closes a block as well, but only the word behind the brace counts. -/
@[simp] theorem turn_line_elseIf : turn (p.line "\x7d else if") = .opens :=
  @turn_line p _ "if" "\x7d else ".toList (by decide) (by decide) (by decide)

end Parens

/-- What a handler catches: no control word in it looks as if it began a block. -/
structure Parameter extends Parens where
  not_opening : controlOpening.occurs inside = false

theorem Parameter.not_opening_line (p : Parameter) :
    controlOpening.occurs (p.line "\x7d catch") = false := by
  have hletters : ∀ s ∈ controlStarts, '(' ∉ s.toList ∧
      ¬s.toList.all fun c => "\x7d catch".toList.contains c || isBlank c := by decide
  have hblank {v : Text} (hv : ∀ c ∈ v, isBlank c) : '(' ∉ v :=
    fun hmem => absurd (hv '(' hmem) (by decide)
  rw [← Bool.not_eq_true, occurs_controlOpening_iff]
  rintro ⟨x, s, v, rest, hline, hs, hv, hprev⟩
  obtain ⟨hparen, hletter⟩ := hletters s hs
  have hcut : ("\x7d catch".toList ++ p.before) ++
      '(' :: (p.inside ++ ')' :: (p.after ++ ['{'])) = (x ++ (s.toList ++ v)) ++ '(' :: rest := by
    simpa only [Parens.line, List.append_assoc] using hline
  have hfirst : '(' ∉ "\x7d catch".toList ++ p.before :=
    List.not_mem_append (by decide) (hblank p.isMargin_before.blank)
  rcases Text.eq_or_exists_of_append_cons_eq hcut hfirst with hx | ⟨z, hx, hinside⟩
  · refine hletter (List.all_eq_true.2 fun c hc => ?_)
    rw [Bool.or_eq_true, List.contains_iff_mem]
    have hmem : c ∈ "\x7d catch".toList ++ p.before := by
      rw [← hx]
      exact List.mem_append_right x (List.mem_append_left v hc)
    exact (List.mem_append.1 hmem).imp_right (p.isMargin_before.blank c)
  · obtain ⟨x', rfl, rfl⟩ :=
      Text.exists_of_append_eq hx (List.not_mem_append hparen (hblank hv))
    have htail : '(' ∉ ')' :: (p.after ++ ['{']) := by
      simp [hblank p.isMargin_after.blank]
    obtain ⟨y, hy, -⟩ := Text.exists_of_append_eq hinside htail
    have hbehind : (behind none x').any isWord = false := by
      cases x' with
      | nil => rfl
      | cons d x' => simpa using hprev
    have hoccurs : controlOpening.occurs p.inside := occurs_controlOpening_iff.2
      ⟨x', s, v, y, by simpa only [List.append_assoc] using hy, hs, hv, hbehind⟩
    exact Bool.false_ne_true (p.not_opening.symm.trans hoccurs)

@[simp] theorem Parameter.turn_line (p : Parameter) : turn (p.line "\x7d catch") = .stays := by
  have hlast : (p.line "\x7d catch").getLast? = some '{' := by
    simp [Parens.line, List.getLast?_append, List.getLast?_cons]
  have htrim : Text.trim (p.line "\x7d catch") = p.line "\x7d catch" :=
    Text.trim_eq_self rfl (by rw [hlast]; rfl)
  refine turn_of_not_opening (.inl p.not_opening_line) ?_
  rw [htrim]
  intro h
  rw [h] at hlast
  exact absurd hlast (by decide)

def elseLine : Text := "\x7d else \x7b".toList

@[simp] theorem turn_elseLine : turn elseLine = .stays := by decide

def tryLine : Text := "try \x7b".toList

@[simp] theorem turn_tryLine : turn tryLine = .stays := by decide

@[simp] theorem turn_nil : turn [] = .stays := by decide

@[simp] theorem turn_close : turn ['}'] = .closes := by decide

namespace Turn

@[simp] def after (depth : Nat) : Turn → Nat
  | opens => depth + 1
  | closes => depth - 1
  | stays => depth

@[simp] def net : Turn → Int
  | opens => 1
  | closes => -1
  | stays => 0

theorem after_eq (t : Turn) (depth : Nat) :
    (t.after depth : Int) = max (t.after 0 : Int) (depth + t.net) := by
  cases t <;> simp only [after, net] <;> omega

end Turn

def level (depth : Nat) (ls : List Text) : Nat := ls.foldl (fun d l => (turn l).after d) depth

def net (ls : List Text) : Int := (ls.map fun l => (turn l).net).sum

@[simp] theorem level_nil (depth : Nat) : level depth [] = depth := rfl

@[simp] theorem level_cons (depth : Nat) (l : Text) (ls : List Text) :
    level depth (l :: ls) = level ((turn l).after depth) ls := rfl

@[simp] theorem level_append (depth : Nat) (xs ys : List Text) :
    level depth (xs ++ ys) = level (level depth xs) ys := List.foldl_append

@[simp] theorem net_nil : net [] = 0 := rfl

@[simp] theorem net_cons (l : Text) (ls : List Text) : net (l :: ls) = (turn l).net + net ls := by
  simp [net]

@[simp] theorem net_append (xs ys : List Text) : net (xs ++ ys) = net xs + net ys := by
  simp [net]

theorem level_eq (depth : Nat) (ls : List Text) :
    (level depth ls : Int) = max (level 0 ls : Int) (depth + net ls) := by
  induction ls generalizing depth with
  | nil => simp
  | cons l ls ih =>
    have hstep := (turn l).after_eq depth
    have hdepth := ih ((turn l).after depth)
    have hzero := ih ((turn l).after 0)
    rw [level_cons, level_cons, net_cons]
    omega

/-- The greatest depth on lines, the one they begin at included. -/
def reach (depth : Nat) (ls : List Text) : Nat := max depth (deepest depth ls)

@[simp] theorem reach_nil (depth : Nat) : reach depth [] = depth := Nat.max_zero depth

@[simp] theorem reach_cons (depth : Nat) (l : Text) (ls : List Text) :
    reach depth (l :: ls) = max depth (reach ((turn l).after depth) ls) := by
  rw [reach, reach, deepest]
  cases turn l <;> simp only [Turn.after] <;> omega

theorem le_reach (depth : Nat) (ls : List Text) : depth ≤ reach depth ls := Nat.le_max_left _ _

@[simp] theorem reach_append (depth : Nat) (xs ys : List Text) :
    reach depth (xs ++ ys) = max (reach depth xs) (reach (level depth xs) ys) := by
  induction xs generalizing depth with
  | nil => simp [le_reach]
  | cons x xs ih => simp [ih, Nat.max_assoc]

theorem nesting_eq_reach (t : Text) : nesting t = reach 0 (Text.lines t) := (Nat.zero_max _).symm

end PatchReview.Complexity.Brace
