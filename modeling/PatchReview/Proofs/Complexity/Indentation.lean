import PatchReview.Complexity.Analysis
import PatchReview.Proofs.Complexity.Decisions
import PatchReview.Proofs.Complexity.Size

set_option autoImplicit false

namespace PatchReview.Complexity

open Pattern
open Text (IsMargin inset)

variable {w : Text} (hw : IsMargin w)

def Block.indented (w : Text) (b : Block) : Block := { b with lines := b.lines.map (w ++ ·) }

section
variable {block? : Nat → Text → List Text → Option Block}
  (h : ∀ n l rest, block? n (w ++ l) (rest.map (w ++ ·)) = (block? n l rest).map (·.indented w))
include h

theorem blocksFrom_map (n : Nat) (ls : List Text) :
    blocksFrom block? n (ls.map (w ++ ·)) = (blocksFrom block? n ls).map (·.indented w) := by
  induction ls generalizing n with
  | nil => rfl
  | cons l ls ih =>
    rw [List.map_cons, blocksFrom, blocksFrom, h, ih, List.map_append]
    cases block? n l ls <;> rfl

end

include hw

theorem surplus_append (plus minus : Char) (hplus : isBlank plus = false)
    (hminus : isBlank minus = false) (l : Text) :
    Text.surplus plus minus (w ++ l) = Text.surplus plus minus l := by
  have hcount {c : Char} (hc : isBlank c = false) : w.count c = 0 := by
    rw [List.count_eq_zero]
    exact fun hmem => absurd ((hw.blank c hmem).symm.trans hc) (by decide)
  simp [Text.surplus, List.count_append, hcount hplus, hcount hminus]

theorem contains_append {c : Char} (hc : isBlank c = false) (l : Text) :
    (w ++ l).contains c = l.contains c := by
  have hnot : w.contains c = false := by
    rw [← Bool.not_eq_true, List.contains_iff_mem]
    exact fun hmem => absurd ((hw.blank c hmem).symm.trans hc) (by decide)
  rw [List.contains_append, hnot, Bool.false_or]

namespace Brace

theorem allAlike_openParen : AllAlike w openParen :=
  .blanks_append hw (by decide) (allAlike_ofText (by decide))

omit hw in
theorem allAlike_keyword {s : String} (hs : '\n' ∉ s.toList) : AllAlike w (wordEdge ++ lit s) :=
  allAlike_wordEdge.append (allAlike_ofText hs)

theorem firstAlike_decisions : ∀ p ∈ decisions, FirstAlike w p := by
  have hparen := allAlike_openParen hw
  have hif : AllAlike w (lit "if" ++ openParen) := (allAlike_ofText (by decide)).append hparen
  have helse : wordEdge ++ lit "else" ++ someBlanks ++ lit "if" ++ openParen =
      wordEdge ++ lit "else" ++ (someBlanks ++ (lit "if" ++ openParen)) := by
    simp only [append_assoc]
  have hchoice : lit "?" ++ blanks ++ one (· != ':') = lit "?" ++ (blanks ++ one (· != ':')) :=
    append_assoc _ _ _
  have hcolon : ∀ x, isBlank x → (x != ':') := by
    intro x hx
    rw [bne_iff_ne]
    rintro rfl
    exact absurd hx (by decide)
  rw [decisions, helse, hchoice]
  simp only [List.forall_mem_cons, List.not_mem_nil, false_imp_iff, implies_true, and_true]
  -- A `case` and a choice end among blanks, where only the first match is the same.
  refine ⟨?_, ?_, ?_, ?_, ?_, ?_, ?_, ?_, ?_, ?_⟩
  · exact ((allAlike_keyword (by decide)).append hparen).first
  · exact ((allAlike_keyword (by decide)).append
      (hif.someBlanks_append hw (by decide))).first
  · exact ((allAlike_keyword (by decide)).append hparen).first
  · exact ((allAlike_keyword (by decide)).append hparen).first
  · exact (allAlike_keyword (by decide)).append_first (firstAlike_someBlanks hw)
  · exact ((allAlike_keyword (by decide)).append hparen).first
  · exact (allAlike_ofText (by decide)).append_first (firstAlike_blanks_one hw hcolon)
  · exact (allAlike_ofText (by decide)).first
  · exact (allAlike_ofText (by decide)).first
  · exact (allAlike_ofText (by decide)).first

omit hw in
theorem skipsBlanks_decisions : ∀ p ∈ decisions, p.skipsBlanks := by decide

theorem cyclomatic_margin (body : Text) : cyclomatic (w ++ inset w body) = cyclomatic body := by
  rw [cyclomatic, cyclomatic]
  congr 2
  refine List.map_congr_left fun p hp => ?_
  exact count_margin (skipsBlanks_decisions p hp) hw (firstAlike_decisions hw p hp) body

theorem declarationName?_append (l : Text) : declarationName? (w ++ l) = declarationName? l := by
  have hmethod : methodShape.nameAtStart? (w ++ l) = methodShape.nameAtStart? l :=
    NamedShape.nameAtStart?_append_of_blanks (by decide +kernel) rfl rfl hw.blank l
  rw [declarationName?, declarationName?, methodName?, methodName?, hmethod,
    NamedShape.name?_append_of_blanks rfl rfl (by decide) hw.blank,
    NamedShape.name?_append_of_blanks rfl rfl (by decide) hw.blank]

theorem closedRun_map (depth : Int) (ls : List Text) :
    closedRun depth (ls.map (w ++ ·)) = (closedRun depth ls).map (w ++ ·) := by
  induction ls generalizing depth with
  | nil => rfl
  | cons l ls ih =>
    simp only [List.map_cons, closedRun, surplus_append hw '{' '}' rfl rfl, ih]
    split <;> rfl

theorem block?_append (n : Nat) (l : Text) (rest : List Text) :
    block? n (w ++ l) (rest.map (w ++ ·)) = (block? n l rest).map (·.indented w) := by
  have hrun := closedRun_map hw 0 (l :: rest)
  rw [List.map_cons] at hrun
  rw [block?, block?, contains_append hw rfl, declarationName?_append hw, hrun]
  split
  case isTrue =>
    rw [Option.map_map]
    rfl
  case isFalse => rfl

theorem turn_append {l : Text} (hl : '\n' ∉ l) : turn (w ++ l) = turn l := by
  have hcontrol : AllAlike w controlOpening :=
    (allAlike_wordEdge.append (allAlike_words (by decide))).append (allAlike_openParen hw)
  have helse : AllAlike w elseOpening := by
    have hassoc : elseOpening = wordEdge ++ lit "else" ++ (blanks ++ lit "\x7b") :=
      append_assoc _ _ _
    rw [hassoc]
    exact (allAlike_keyword (by decide)).append
      (.blanks_append hw (by decide) (allAlike_ofText (by decide)))
  have hoccurs {p : Pattern} (hskips : p.skipsBlanks) (hp : AllAlike w p) :
      p.occurs (w ++ l) = p.occurs l := by
    have hmargin := occurs_margin hskips hw hp.first l
    rwa [Text.inset_of_notMem hl] at hmargin
  rw [turn, turn, hoccurs (by decide) hcontrol, hoccurs (by decide) helse,
    contains_append hw rfl, Text.trim_append_of_blanks hw.blank]

theorem deepest_map {ls : List Text} (h : ∀ l ∈ ls, '\n' ∉ l) (depth : Nat) :
    deepest depth (ls.map (w ++ ·)) = deepest depth ls := by
  induction ls generalizing depth with
  | nil => rfl
  | cons l ls ih =>
    have htail := ih fun k hk => h k (List.mem_cons_of_mem l hk)
    simp only [List.map_cons, deepest, turn_append hw (h l List.mem_cons_self), htail]

end Brace

namespace Indent

theorem indentation_append (l : Text) :
    Text.indentation (w ++ l) = w.length + Text.indentation l := by
  rw [Text.indentation, List.takeWhile_append_of_pos hw.blank, List.length_append]
  rfl

theorem isBlankLine_append (l : Text) : Text.isBlankLine (w ++ l) = Text.isBlankLine l := by
  have hall : w.all isBlank := List.all_eq_true.2 hw.blank
  rw [Text.isBlankLine, List.all_append, hall, Bool.true_and]
  rfl

theorem splitSignature_map (openBefore : Int) (ls : List Text) :
    splitSignature openBefore (ls.map (w ++ ·)) =
      ((splitSignature openBefore ls).1.map (w ++ ·),
        (splitSignature openBefore ls).2.map (w ++ ·)) := by
  induction ls generalizing openBefore with
  | nil => rfl
  | cons l ls ih =>
    simp only [List.map_cons, splitSignature,
      surplus_append hw '(' ')' rfl rfl, ih]
    split <;> rfl

theorem indentedRun_map (margin : Nat) (ls : List Text) :
    indentedRun (w.length + margin) (ls.map (w ++ ·)) = (indentedRun margin ls).map (w ++ ·) := by
  induction ls with
  | nil => rfl
  | cons l ls ih =>
    simp only [List.map_cons, indentedRun, isBlankLine_append hw, indentation_append hw, ih,
      Nat.add_le_add_iff_left]
    split_ifs
    · cases indentedRun margin ls <;> rfl
    · rfl
    · rfl

theorem blockLines_map (l : Text) (rest : List Text) :
    blockLines (w ++ l) (rest.map (w ++ ·)) = (blockLines l rest).map (w ++ ·) := by
  have hsplit := splitSignature_map hw 0 (l :: rest)
  rw [List.map_cons] at hsplit
  simp only [blockLines, hsplit, indentation_append hw, indentedRun_map hw, List.map_append]

omit hw in
theorem defShape_eq :
    defShape = ⟨blanks ++ (asyncWord ++ lit "def" ++ someBlanks), blanks ++ lit "("⟩ := by
  rw [defShape]
  simp only [append_assoc]

theorem block?_append (n : Nat) (l : Text) (rest : List Text) :
    block? n (w ++ l) (rest.map (w ++ ·)) = (block? n l rest).map (·.indented w) := by
  have hname : defShape.nameAtStart? (w ++ l) = defShape.nameAtStart? l := by
    rw [defShape_eq]
    exact NamedShape.nameAtStart?_append_of_blanks (by decide) rfl rfl hw.blank l
  rw [block?, block?, hname, blockLines_map hw, Option.map_map]
  rfl

omit hw in
theorem blockOpening_eq :
    blockOpening = blanks ++ (asyncWord ++ (words ["if", "elif", "else", "for", "while", "with",
      "try", "except", "finally", "match"] ++ (wordEdge ++ (line ++ (lit ":" ++ (blanks ++
        (optional (lit "#" ++ line) ++ textEnd))))))) := by
  rw [blockOpening]
  simp only [append_assoc]

theorem opensBlock_append (l : Text) : opensBlock (w ++ l) = opensBlock l := by
  rw [opensBlock, opensBlock, blockOpening_eq]
  exact matchesStart_append_of_blanks (by decide) (by decide) hw.blank l

theorem isPassedOver_append (l : Text) : isPassedOver (w ++ l) = isPassedOver l := by
  rw [isPassedOver, isPassedOver, Text.trim_append_of_blanks hw.blank]

omit hw in
theorem dropWhile_map_add (k margin : Nat) (outer : List Nat) :
    (outer.map (k + ·)).dropWhile (k + margin ≤ ·) =
      (outer.dropWhile (margin ≤ ·)).map (k + ·) := by
  rw [List.dropWhile_map]
  congr 2
  funext n
  simp

theorem deepest_map (outer : List Nat) (ls : List Text) :
    deepest (outer.map (w.length + ·)) (ls.map (w ++ ·)) = deepest outer ls := by
  induction ls generalizing outer with
  | nil => rfl
  | cons l ls ih =>
    have hopen := ih (Text.indentation l :: outer.dropWhile (Text.indentation l ≤ ·))
    rw [List.map_cons] at hopen
    simp only [List.map_cons, deepest, isPassedOver_append hw, indentation_append hw,
      opensBlock_append hw, dropWhile_map_add, List.length_map, hopen, ih]

end Indent

namespace Profile

theorem blocks_indented (p : Profile) (code : Text) :
    p.blocks (Text.indented w code) = (p.blocks code).map (·.indented w) := by
  have hlines := Text.lines_indented hw.newline_notMem code
  cases p with
  | brace =>
    rw [blocks, Brace.blocks, Brace.blocks, hlines]
    exact blocksFrom_map (Brace.block?_append hw) 1 _
  | indent =>
    rw [blocks, Indent.blocks, Indent.blocks, hlines]
    exact blocksFrom_map (Indent.block?_append hw) 1 _

variable {ls : List Text} (h : ∀ l ∈ ls, '\n' ∉ l)
include h

theorem cyclomatic_indented (p : Profile) :
    p.cyclomatic (Text.unlines (ls.map (w ++ ·))) = p.cyclomatic (Text.unlines ls) := by
  by_cases hne : ls = []
  · rw [hne, List.map_nil]
  rw [Text.unlines_map_append w hne h]
  cases p with
  | brace => exact Brace.cyclomatic_margin hw _
  | indent => exact congrArg (1 + ·) (Indent.count_margin hw _)

theorem nesting_indented (p : Profile) :
    p.nesting (Text.unlines (ls.map (w ++ ·))) = p.nesting (Text.unlines ls) := by
  by_cases hne : ls = []
  · rw [hne, List.map_nil]
  have hne' : ls.map (w ++ ·) ≠ [] := fun hnil => hne (List.map_eq_nil_iff.1 hnil)
  have h' : ∀ l ∈ ls.map (w ++ ·), '\n' ∉ l := by
    intro l hl
    obtain ⟨k, hk, rfl⟩ := List.mem_map.1 hl
    rw [List.mem_append, not_or]
    exact ⟨hw.newline_notMem, h k hk⟩
  cases p with
  | brace =>
    rw [nesting, Brace.nesting, Brace.nesting, Text.lines_unlines hne' h', Text.lines_unlines hne h]
    exact Brace.deepest_map hw h 0
  | indent =>
    rw [nesting, Indent.nesting, Indent.nesting, Text.lines_unlines hne' h',
      Text.lines_unlines hne h]
    exact Indent.deepest_map hw [] ls

end Profile

namespace Measured

def indented (w : Text) (m : Measured) : Measured := { m with block := m.block.indented w }

/-- What is said of a function: its name, first line and length, its complexity and nesting. -/
def figures (m : Measured) : Text × Nat × Nat × Nat × Nat :=
  (m.block.name, m.block.startLine, m.length, m.cyclomatic, m.nesting)

end Measured

theorem measure_indented (p : Profile) (code : Text) :
    p.measure (Text.indented w code) = (p.measure code).map (·.indented w) := by
  rw [Profile.measure, Profile.measure, p.blocks_indented hw, List.map_map, List.map_map]
  refine List.map_congr_left fun b hb => ?_
  have hlines : ∀ l ∈ b.lines, '\n' ∉ l := fun l hl =>
    Text.newline_notMem_of_mem_lines ((Profile.lines_infix_of_mem_blocks hb).subset hl)
  have hcyclomatic := p.cyclomatic_indented hw hlines
  have hnesting := p.nesting_indented hw hlines
  simp only [Function.comp_apply, Measured.indented, Block.indented, Block.body, hcyclomatic,
    hnesting]

omit hw in
theorem ofMeasured_indented (file : Option Text) (functions : List Measured) :
    Report.ofMeasured file (functions.map (·.indented w)) = Report.ofMeasured file functions := by
  have hlength (m : Measured) : (m.indented w).length = m.length := by
    simp [Measured.length, Measured.indented, Block.length, Block.indented]
  have hhotspot (m : Measured) : (m.indented w).hotspot? (shownFile file) =
      m.hotspot? (shownFile file) := by
    rw [Measured.hotspot?, Measured.hotspot?, hlength]
    rfl
  have hmetrics : Metrics.ofMeasured (functions.map (·.indented w)) =
      Metrics.ofMeasured functions := by
    simp only [Metrics.ofMeasured, List.map_map, List.length_map, Function.comp_def, hlength]
    rfl
  rw [Report.ofMeasured, Report.ofMeasured, hmetrics, List.filterMap_map, List.length_map,
    List.isEmpty_map]
  simp only [Function.comp_def, hhotspot]

/-- Indenting all lines alike changes nothing that is said of the functions, and not the report. -/
theorem analyze_indented (p : Profile) (code : Text) :
    (p.measure (Text.indented w code)).map (·.figures) = (p.measure code).map (·.figures) ∧
      ∀ file, analyze p (Text.indented w code) file = analyze p code file := by
  rw [measure_indented hw, List.map_map]
  constructor
  · refine List.map_congr_left fun m _ => ?_
    simp [Measured.figures, Measured.indented, Measured.length, Block.indented, Block.length]
  · intro file
    rw [analyze, measure_indented hw, ofMeasured_indented, analyze]

omit hw in
/-- A `case` behind an empty line, in a function whose signature takes two lines. -/
theorem analyze_indented_case :
    let w := "\t ".toList
    let code := "def f(x,\ny):\n match x:\n\n  case 1: pass\n# f\nf(1)\n".toList
    (Profile.indent.measure (Text.indented w code)).map (·.figures) = [("f".toList, 1, 5, 2, 1)] ∧
      analyze .indent (Text.indented w code) none = analyze .indent code none := by
  intro w code
  have hw : IsMargin w := by decide
  obtain ⟨hfigures, hreport⟩ := analyze_indented hw .indent code
  rw [hfigures]
  exact ⟨by decide +kernel, hreport none⟩

end PatchReview.Complexity
