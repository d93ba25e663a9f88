import PatchReview.Complexity.Analysis
import PatchReview.Proofs.Complexity.Brace

/-!
Code in two parts. A function that is closed in the first part takes no line of the second, and
what stands in the first part has no say in the functions that begin in the second. Main statement:
`analyze_append`.
-/

set_option autoImplicit false

namespace PatchReview.Complexity

section
variable (block? : Nat → Text → List Text → Option Block)

theorem blocksFrom_append (number : Nat) (xs ys : List Text) :
    blocksFrom block? number (xs ++ ys) =
      blocksFrom (fun n l rest => block? n l (rest ++ ys)) number xs ++
        blocksFrom block? (number + xs.length) ys := by
  induction xs generalizing number with
  | nil => rfl
  | cons x xs ih =>
    rw [List.cons_append, blocksFrom, ih, blocksFrom, List.append_assoc, List.length_cons,
      Nat.add_right_comm, Nat.add_assoc]

variable {block?}

theorem blocksFrom_congr {block?' : Nat → Text → List Text → Option Block} {number : Nat}
    {ls : List Text}
    (h : ∀ before l rest, ls = before ++ l :: rest →
      block? (number + before.length) l rest = block?' (number + before.length) l rest) :
    blocksFrom block? number ls = blocksFrom block?' number ls := by
  induction ls generalizing number with
  | nil => rfl
  | cons x xs ih =>
    have hfirst : block? number x xs = block?' number x xs := h [] x xs rfl
    have hrest : blocksFrom block? (number + 1) xs = blocksFrom block?' (number + 1) xs := by
      refine ih fun before l rest heq => ?_
      have hx := h (x :: before) l rest (by rw [heq]; rfl)
      rwa [List.length_cons, Nat.add_comm before.length, ← Nat.add_assoc] at hx
    rw [blocksFrom, blocksFrom, hfirst, hrest]

end

/-- Some line ends where the surplus of one character over the other passes the test. -/
def ClosesFrom (plus minus : Char) (stop : Int → Prop) (before : Int) : List Text → Prop
  | [] => False
  | l :: rest =>
    let after := before + Text.surplus plus minus l
    stop after ∨ ClosesFrom plus minus stop after rest

theorem closesFrom_iff {plus minus : Char} (hplus : '\n' ≠ plus) (hminus : '\n' ≠ minus)
    {stop : Int → Prop} {before : Int} {ls : List Text} :
    ClosesFrom plus minus stop before ls ↔ ∃ run, run <+: ls ∧ run ≠ [] ∧
      stop (before + Text.surplus plus minus (Text.unlines run)) := by
  induction ls generalizing before with
  | nil => simp [ClosesFrom]
  | cons l ls ih =>
    have hcons (run : List Text) : before + Text.surplus plus minus (Text.unlines (l :: run)) =
        before + Text.surplus plus minus l + Text.surplus plus minus (Text.unlines run) := by
      rw [Text.surplus_unlines_cons hplus hminus, Int.add_assoc]
    rw [ClosesFrom, ih]
    constructor
    · rintro (h | ⟨run, hrun, -, h⟩)
      · exact ⟨[l], ⟨ls, rfl⟩, by simp, h⟩
      · exact ⟨l :: run, List.cons_prefix_cons.2 ⟨rfl, hrun⟩, by simp, by rwa [hcons]⟩
    · intro h
      obtain ⟨run, hrun, hne, h⟩ := h
      obtain ⟨k, run, rfl⟩ := List.exists_cons_of_ne_nil hne
      obtain ⟨rfl, hrest⟩ := List.cons_prefix_cons.1 hrun
      rw [hcons] at h
      by_cases hnil : run = []
      · subst hnil
        exact .inl (by simpa [Text.unlines, Text.surplus] using h)
      · exact .inr ⟨run, hrest, hnil, h⟩

theorem Brace.closedRun_append {before : Int} {ls : List Text}
    (h : ClosesFrom '{' '}' (· = 0) before ls) (more : List Text) :
    closedRun before (ls ++ more) = closedRun before ls := by
  induction ls generalizing before with
  | nil => exact h.elim
  | cons l ls ih =>
    simp only [List.cons_append, closedRun]
    split
    case isTrue => rfl
    case isFalse hopen => rw [ih (h.resolve_left hopen)]

namespace Indent

theorem splitSignature_append_right {openBefore : Int} {ls : List Text}
    (h : ClosesFrom '(' ')' (· ≤ 0) openBefore ls) (more : List Text) :
    splitSignature openBefore (ls ++ more) =
      ((splitSignature openBefore ls).1, (splitSignature openBefore ls).2 ++ more) := by
  induction ls generalizing openBefore with
  | nil => exact h.elim
  | cons l ls ih =>
    simp only [List.cons_append, splitSignature]
    split
    case isTrue => rfl
    case isFalse hopen => rw [ih (h.resolve_left hopen)]

/-- The first line that is not blank, if there is one, is not indented. -/
def IsFlush (ls : List Text) : Prop :=
  ∀ l ∈ ls.find? (!Text.isBlankLine ·), Text.indentation l = 0

theorem indentedRun_of_isFlush {ls : List Text} (h : IsFlush ls) (margin : Nat) :
    indentedRun margin ls = [] := by
  induction ls with
  | nil => rfl
  | cons l ls ih =>
    rw [IsFlush, List.find?_cons] at h
    rw [indentedRun]
    split
    case isTrue hblank =>
      rw [ih (by simpa [IsFlush, hblank] using h)]
    case isFalse hblank =>
      have hl : Text.indentation l = 0 := by simpa [hblank] using h
      rw [if_pos (hl ▸ Nat.zero_le margin)]

theorem indentedRun_append {margin : Nat} {more : List Text} (h : indentedRun margin more = [])
    (ls : List Text) : indentedRun margin (ls ++ more) = indentedRun margin ls := by
  induction ls with
  | nil => exact h
  | cons l ls ih => simp only [List.cons_append, indentedRun, ih]

theorem blockLines_append {line : Text} {rest more : List Text}
    (h : ClosesFrom '(' ')' (· ≤ 0) 0 (line :: rest)) (hmore : IsFlush more) :
    blockLines line (rest ++ more) = blockLines line rest := by
  have hsplit := splitSignature_append_right h more
  have hrun := indentedRun_append (indentedRun_of_isFlush hmore (Text.indentation line))
  rw [List.cons_append] at hsplit
  simp only [blockLines, hsplit, hrun]

end Indent

def Block.moved (k : Nat) (b : Block) : Block := { b with startLine := b.startLine + k }

@[simp] theorem Block.startLine_moved (k : Nat) (b : Block) :
    (b.moved k).startLine = b.startLine + k := rfl

namespace Profile

def name? : Profile → Text → Option Text
  | brace, line => if line.contains '{' then Brace.declarationName? line else none
  | indent, line => Indent.defShape.nameAtStart? line

def run : Profile → Text → List Text → List Text
  | brace, line, rest => Brace.closedRun 0 (line :: rest)
  | indent, line, rest => Indent.blockLines line rest

def block? (p : Profile) (number : Nat) (line : Text) (rest : List Text) : Option Block :=
  (p.name? line).map fun name => ⟨name, number, p.run line rest⟩

theorem blocks_eq (p : Profile) (code : Text) :
    p.blocks code = blocksFrom p.block? 1 (Text.lines code) := by
  cases p with
  | brace =>
    have hblock : Brace.block? = brace.block? := by
      funext number line rest
      rw [Brace.block?, block?, name?]
      split <;> rfl
    rw [blocks, Brace.blocks, hblock]
  | indent => rfl

theorem blocks_unlines (p : Profile) {ls : List Text} (h : ∀ l ∈ ls, '\n' ∉ l) :
    p.blocks (Text.unlines ls) = blocksFrom p.block? 1 ls := by
  rw [blocks_eq]
  by_cases hne : ls = []
  · subst hne
    cases p <;> decide
  · rw [Text.lines_unlines hne h]

theorem blocksFrom_add (p : Profile) (number k : Nat) (ls : List Text) :
    blocksFrom p.block? (number + k) ls = (blocksFrom p.block? number ls).map (·.moved k) := by
  induction ls generalizing number with
  | nil => rfl
  | cons l ls ih =>
    rw [blocksFrom, blocksFrom, Nat.add_right_comm, ih, List.map_append]
    simp only [block?]
    cases p.name? l <;> rfl

/-- On some line all braces, or no fewer parentheses than were opened, are closed. -/
def Closes : Profile → List Text → Prop
  | brace, ls => ∃ run, run <+: ls ∧ run ≠ [] ∧ Text.surplus '{' '}' (Text.unlines run) = 0
  | indent, ls => ∃ run, run <+: ls ∧ run ≠ [] ∧ Text.surplus '(' ')' (Text.unlines run) ≤ 0

/-- Lines that cannot belong to a function above them: indentation decides where it counts. -/
def StandsApart : Profile → List Text → Prop
  | brace, _ => True
  | indent, ls => Indent.IsFlush ls

theorem run_append {p : Profile} {line : Text} {rest more : List Text} (h : p.Closes (line :: rest))
    (hmore : p.StandsApart more) : p.run line (rest ++ more) = p.run line rest := by
  cases p with
  | brace =>
    refine @Brace.closedRun_append 0 (line :: rest) ?_ more
    rw [closesFrom_iff (by decide) (by decide)]
    simpa [Closes] using h
  | indent =>
    refine Indent.blockLines_append ?_ hmore
    rw [closesFrom_iff (by decide) (by decide)]
    simpa [Closes] using h

theorem startLine_of_block? {p : Profile} {number : Nat} {line : Text} {rest : List Text}
    {b : Block} (h : p.block? number line rest = some b) : b.startLine = number := by
  obtain ⟨name, -, rfl⟩ := Option.map_eq_some_iff.1 h
  rfl

variable (p : Profile) {xs ys : List Text} (h : ∀ l ∈ xs ++ ys, '\n' ∉ l)
include h

theorem blocks_unlines_append : p.blocks (Text.unlines (xs ++ ys)) =
    blocksFrom (fun n l rest => p.block? n l (rest ++ ys)) 1 xs ++
      (p.blocks (Text.unlines ys)).map (·.moved xs.length) := by
  have hys : ∀ l ∈ ys, '\n' ∉ l := fun l hl => h l (List.mem_append_right xs hl)
  rw [p.blocks_unlines h, p.blocks_unlines hys, blocksFrom_append, p.blocksFrom_add]

theorem filter_blocks_append :
    (p.blocks (Text.unlines (xs ++ ys))).filter (xs.length < ·.startLine) =
      (p.blocks (Text.unlines ys)).map (·.moved xs.length) := by
  have hys : ∀ l ∈ ys, '\n' ∉ l := fun l hl => h l (List.mem_append_right xs hl)
  have hfirst : (blocksFrom (fun n l rest => p.block? n l (rest ++ ys)) 1 xs).filter
      (xs.length < ·.startLine) = [] := by
    rw [List.filter_eq_nil_iff]
    intro b hb
    obtain ⟨before, l, rest, rfl, hblock⟩ := mem_blocksFrom.1 hb
    have hstart := startLine_of_block? hblock
    simp only [List.length_append, List.length_cons, decide_eq_true_eq]
    omega
  have hsecond : ((p.blocks (Text.unlines ys)).map (·.moved xs.length)).filter
      (xs.length < ·.startLine) = (p.blocks (Text.unlines ys)).map (·.moved xs.length) := by
    rw [List.filter_eq_self, p.blocks_unlines hys]
    intro b hb
    obtain ⟨c, hc, rfl⟩ := List.mem_map.1 hb
    obtain ⟨before, l, rest, -, hblock⟩ := mem_blocksFrom.1 hc
    have hbehind : xs.length < (c.moved xs.length).startLine := by
      rw [Block.startLine_moved, startLine_of_block? hblock]
      omega
    exact decide_eq_true hbehind
  rw [p.blocks_unlines_append h, List.filter_append, hfirst, hsecond, List.nil_append]

theorem blocks_append
    (hcloses : ∀ b ∈ p.blocks (Text.unlines xs), p.Closes (xs.drop (b.startLine - 1)))
    (hapart : p.StandsApart ys) :
    p.blocks (Text.unlines (xs ++ ys)) =
      p.blocks (Text.unlines xs) ++ (p.blocks (Text.unlines ys)).map (·.moved xs.length) := by
  have hxs : ∀ l ∈ xs, '\n' ∉ l := fun l hl => h l (List.mem_append_left ys hl)
  rw [p.blocks_unlines_append h]
  congr 1
  rw [p.blocks_unlines hxs]
  rw [p.blocks_unlines hxs] at hcloses
  refine blocksFrom_congr fun before l rest hsplit => ?_
  cases hname : p.name? l with
  | none => simp [block?, hname]
  | some name =>
    have hblock : p.block? (1 + before.length) l rest =
        some ⟨name, 1 + before.length, p.run l rest⟩ := by rw [block?, hname]; rfl
    have hclosed := hcloses _ (mem_blocksFrom.2 ⟨before, l, rest, hsplit, hblock⟩)
    rw [Nat.add_sub_cancel_left, hsplit, List.drop_left] at hclosed
    rw [block?, block?, run_append hclosed hapart]

end Profile

def Measured.moved (k : Nat) (m : Measured) : Measured := { m with block := m.block.moved k }

def Hotspot.moved (k : Nat) (h : Hotspot) : Hotspot := { h with line := h.line.map (· + k) }

theorem Measured.hotspot?_moved (k : Nat) (m : Measured) (file : Text) :
    (m.moved k).hotspot? file = (m.hotspot? file).map (·.moved k) := by
  rw [hotspot?, hotspot?, Option.map_map]
  congr 1

theorem measure_append {p : Profile} {code before after : Text} {k : Nat}
    (h : p.blocks code = p.blocks before ++ (p.blocks after).map (·.moved k)) :
    p.measure code = p.measure before ++ (p.measure after).map (·.moved k) := by
  rw [Profile.measure, Profile.measure, Profile.measure, h, List.map_append, List.map_map,
    List.map_map]
  rfl

namespace Report

variable (file : Option Text) (functions : List Measured)

theorem functionCount_ofMeasured :
    (ofMeasured file functions).functionCount = functions.length := by
  cases functions <;> rfl

theorem hotspots_ofMeasured : (ofMeasured file functions).hotspots =
    functions.filterMap (·.hotspot? (shownFile file)) := by
  cases functions <;> rfl

theorem maxNesting_ofMeasured : (ofMeasured file functions).metrics.maxNesting =
    ((functions.map (·.nesting)).foldl max 0 : Nat) := by
  cases functions <;> rfl

/-- The first report is on the code of two others, the second of which begins behind `k` lines. The
means are left out. -/
structure Joins (k : Nat) (r before after : Report) : Prop where
  functionCount : r.functionCount = before.functionCount + after.functionCount
  maxNesting : r.metrics.maxNesting = max before.metrics.maxNesting after.metrics.maxNesting
  hotspots : r.hotspots = before.hotspots ++ after.hotspots.map (·.moved k)

theorem foldl_max_append (xs ys : List Nat) :
    (xs ++ ys).foldl max 0 = max (xs.foldl max 0) (ys.foldl max 0) := by
  have hassoc := @List.foldl_assoc Nat max _ ys (xs.foldl max 0) 0
  rwa [Nat.max_zero, ← List.foldl_append] at hassoc

theorem joins_ofMeasured (k : Nat) (before after : List Measured) :
    Joins k (ofMeasured file (before ++ after.map (·.moved k))) (ofMeasured file before)
      (ofMeasured file after) where
  functionCount := by
    simp only [functionCount_ofMeasured, List.length_append, List.length_map,
      Int.natCast_add]
  maxNesting := by
    have hnesting : (after.map (·.moved k)).map (·.nesting) = after.map (·.nesting) := by
      rw [List.map_map]
      rfl
    simp only [maxNesting_ofMeasured, List.map_append, hnesting, foldl_max_append]
    omega
  hotspots := by
    simp only [hotspots_ofMeasured, List.filterMap_append, List.filterMap_map, List.map_filterMap]
    congr 2
    funext m
    exact m.hotspot?_moved k (shownFile file)

end Report

/-- The functions of joined code that begin in the second part are those of the second part. If the
functions of the first part are closed there, all functions are those of the parts, and the report
joins the reports on the parts. -/
theorem analyze_append (p : Profile) {xs ys : List Text} (h : ∀ l ∈ xs ++ ys, '\n' ∉ l) :
    (p.blocks (Text.unlines (xs ++ ys))).filter (xs.length < ·.startLine) =
        (p.blocks (Text.unlines ys)).map (·.moved xs.length) ∧
      ((∀ b ∈ p.blocks (Text.unlines xs), p.Closes (xs.drop (b.startLine - 1))) →
        p.StandsApart ys →
        p.blocks (Text.unlines (xs ++ ys)) =
            p.blocks (Text.unlines xs) ++ (p.blocks (Text.unlines ys)).map (·.moved xs.length) ∧
          ∀ file, Report.Joins xs.length (analyze p (Text.unlines (xs ++ ys)) file)
            (analyze p (Text.unlines xs) file) (analyze p (Text.unlines ys) file)) := by
  refine ⟨p.filter_blocks_append h, fun hcloses hapart => ?_⟩
  have hblocks := p.blocks_append h hcloses hapart
  refine ⟨hblocks, fun file => ?_⟩
  rw [analyze, measure_append hblocks]
  exact Report.joins_ofMeasured file xs.length _ _

/-- A signature on two lines, blank lines on both sides of the seam, and a comment behind it. -/
theorem analyze_append_seam :
    let xs := ["def f(x,".toList, "y):".toList, "  return x".toList, []]
    let ys := [[], "# g".toList, "def g(): return 1".toList]
    (Profile.indent.blocks (Text.unlines (xs ++ ys))).map
        (fun b => (b.name, b.startLine, b.length)) = [(['f'], 1, 3), (['g'], 7, 1)] ∧
      Report.Joins 4 (analyze .indent (Text.unlines (xs ++ ys)) none)
        (analyze .indent (Text.unlines xs) none) (analyze .indent (Text.unlines ys) none) := by
  intro xs ys
  have hblocks : Profile.indent.blocks (Text.unlines xs) = [⟨['f'], 1, xs.take 3⟩] := by
    decide +kernel
  have hcloses : ∀ b ∈ Profile.indent.blocks (Text.unlines xs),
      Profile.indent.Closes (xs.drop (b.startLine - 1)) := by
    intro b hb
    rw [hblocks, List.mem_singleton] at hb
    subst hb
    exact ⟨xs.take 2, ⟨xs.drop 2, rfl⟩, by decide, by decide⟩
  have hapart : Profile.indent.StandsApart ys := by
    intro l hl
    obtain rfl : "# g".toList = l := Option.some.inj hl
    rfl
  obtain ⟨hjoined, hreport⟩ := (analyze_append .indent (by decide)).2 hcloses hapart
  rw [hjoined]
  exact ⟨by decide +kernel, hreport none⟩

end PatchReview.Complexity
