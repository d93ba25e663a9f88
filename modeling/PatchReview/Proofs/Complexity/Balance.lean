import PatchReview.Proofs.Complexity.Brace

/-!
Which lines the blocks in braces have. A block begins on each line with an opening brace that
declares a name, and its lines are the fewest from there on with as many closing braces as opening
ones, or all lines to the end of the text. Depths below zero are possible on the way, so a run is
given by what holds of its parts and not by a depth that is kept. Main statement:
`isExtraction_blocks`.
-/

set_option autoImplicit false

namespace PatchReview.Complexity.Brace

def IsBalanced (ls : List Text) : Prop :=
  (Text.unlines ls).count '{' = (Text.unlines ls).count '}'

/-- The shortest balanced run of lines at the front that is not empty, or all lines if there is
none. -/
structure IsShortestBalanced (ls run : List Text) : Prop where
  isPrefix : run <+: ls
  ne_nil : run ≠ []
  shortest : ∀ part, part <+: run → IsBalanced part → part = [] ∨ part = run
  ends : IsBalanced run ∨ run = ls

theorem isBalanced_iff {ls : List Text} : IsBalanced ls ↔ depth ls = 0 := by
  rw [IsBalanced, depth, Text.surplus]
  omega

section
variable (stop : Int → Bool) (before : Int) {ls : List Text}

theorem runUntil_ne_nil (h : ls ≠ []) : runUntil stop before ls ≠ [] := by
  cases ls with
  | nil => exact absurd rfl h
  | cons l ls =>
    rw [runUntil]
    split <;> simp

theorem stop_or_runUntil_eq (ls : List Text) :
    stop (before + depth (runUntil stop before ls)) ∨ runUntil stop before ls = ls := by
  induction ls generalizing before with
  | nil => exact .inr rfl
  | cons l ls ih =>
    simp only [runUntil]
    split
    case isTrue hstop =>
      left
      simpa [depth_cons] using hstop
    case isFalse =>
      rw [depth_cons, ← Int.add_assoc, List.cons.injEq, and_iff_right rfl]
      exact ih _

theorem eq_of_prefix_runUntil {part : List Text} (hpart : part <+: runUntil stop before ls)
    (hstop : stop (before + depth part)) : part = [] ∨ part = runUntil stop before ls := by
  induction ls generalizing before part with
  | nil => exact .inl (List.prefix_nil.1 hpart)
  | cons l ls ih =>
    cases part with
    | nil => exact .inl rfl
    | cons k part =>
      right
      simp only [runUntil] at hpart ⊢
      split at hpart
      case isTrue hl =>
        obtain ⟨rfl, hnil⟩ := List.cons_prefix_cons.1 hpart
        rw [if_pos hl, List.prefix_nil.1 hnil]
      case isFalse hl =>
        obtain ⟨rfl, hrest⟩ := List.cons_prefix_cons.1 hpart
        rw [depth_cons, ← Int.add_assoc] at hstop
        rw [if_neg hl]
        obtain rfl | heq := ih _ hrest hstop
        · exact absurd (by simpa using hstop) hl
        · exact congrArg (k :: ·) heq

end

theorem isShortestBalanced_closedRun {ls : List Text} (h : ls ≠ []) :
    IsShortestBalanced ls (closedRun 0 ls) := by
  rw [closedRun_eq_runUntil]
  have hrun := runUntil_prefix (· == 0) 0 ls
  refine ⟨hrun, runUntil_ne_nil _ 0 h, fun part hpart hbalanced => ?_, ?_⟩
  · exact eq_of_prefix_runUntil _ 0 hpart (by simpa using isBalanced_iff.1 hbalanced)
  · simpa [isBalanced_iff] using stop_or_runUntil_eq (· == 0) 0 ls

theorem IsShortestBalanced.eq_of_prefix {ls run run' : List Text} (h : IsShortestBalanced ls run)
    (h' : IsShortestBalanced ls run') (hpart : run <+: run') : run = run' := by
  obtain hbalanced | rfl := h.ends
  · exact (h'.shortest run hpart hbalanced).resolve_left h.ne_nil
  · exact hpart.eq_of_length_le h'.isPrefix.length_le

theorem IsShortestBalanced.unique {ls run run' : List Text} (h : IsShortestBalanced ls run)
    (h' : IsShortestBalanced ls run') : run = run' := by
  obtain hpart | hpart := List.prefix_or_prefix_of_prefix h.isPrefix h'.isPrefix
  · exact h.eq_of_prefix h' hpart
  · exact (h'.eq_of_prefix h hpart).symm

theorem block?_eq_some_iff {number : Nat} {line : Text} {rest : List Text} {b : Block} :
    block? number line rest = some b ↔
      b.startLine = number ∧ '{' ∈ line ∧ declarationName? line = some b.name ∧
        IsShortestBalanced (line :: rest) b.lines := by
  have hrun := isShortestBalanced_closedRun (List.cons_ne_nil line rest)
  rw [block?]
  split
  case isTrue hbrace =>
    rw [Option.map_eq_some_iff]
    constructor
    · rintro ⟨name, hname, hb⟩
      subst hb
      exact ⟨rfl, List.contains_iff_mem.1 hbrace, hname, hrun⟩
    · rintro ⟨hnumber, _, hname, hlines⟩
      refine ⟨b.name, hname, ?_⟩
      rw [hrun.unique hlines, ← hnumber]
  case isFalse hbrace =>
    rw [List.contains_iff_mem] at hbrace
    simp [hbrace]

def IsFunction (code : Text) (b : Block) : Prop :=
  ∃ before line rest, Text.lines code = before ++ line :: rest ∧
    b.startLine = before.length + 1 ∧ '{' ∈ line ∧ declarationName? line = some b.name ∧
      IsShortestBalanced (line :: rest) b.lines

theorem mem_blocks {code : Text} {b : Block} : b ∈ blocks code ↔ IsFunction code b := by
  simp only [blocks, mem_blocksFrom, block?_eq_some_iff, IsFunction, Nat.add_comm]

theorem IsFunction.last_le {code : Text} {b : Block} (h : IsFunction code b) :
    b.startLine + b.length - 1 ≤ (Text.lines code).length := by
  obtain ⟨before, line, rest, hlines, hstart, -, -, hrun⟩ := h
  have hlength : b.length ≤ (line :: rest).length := hrun.isPrefix.length_le
  rw [hlines, List.length_append]
  omega

/-- The blocks are the functions of the code, one for each line with an opening brace that declares
a name and in the order of these lines, and none is longer than the code. -/
structure IsExtraction (code : Text) (bs : List Block) : Prop where
  order : bs.Pairwise (·.startLine < ·.startLine)
  mem_iff : ∀ b, b ∈ bs ↔ IsFunction code b
  found : ∀ before line rest name, Text.lines code = before ++ line :: rest → '{' ∈ line →
    declarationName? line = some name → ∃ b ∈ bs, b.startLine = before.length + 1 ∧ b.name = name
  last_le : ∀ b ∈ bs, b.startLine + b.length - 1 ≤ (Text.lines code).length

/-- What is found in a text are its functions. -/
theorem isExtraction_blocks (code : Text) : IsExtraction code (blocks code) where
  order := pairwise_startLine_blocksFrom (fun h => (block?_eq_some_iff.1 h).1) 1 _
  mem_iff _ := mem_blocks
  found before line rest name hlines hbrace hname :=
    ⟨⟨name, before.length + 1, closedRun 0 (line :: rest)⟩,
      mem_blocks.2 ⟨before, line, rest, hlines, rfl, hbrace, hname,
        isShortestBalanced_closedRun (List.cons_ne_nil line rest)⟩, rfl, rfl⟩
  last_le _ hb := (mem_blocks.1 hb).last_le

/-- The first line closes more than it opens, and the third makes up for it. -/
example :
    let body := ["\x7d\x7d async function f() \x7b".toList, "g()".toList, "\x7b".toList]
    blocks (Text.unlines (body ++ ["\x7d".toList])) = [⟨"f".toList, 1, body⟩] := by
  decide

end PatchReview.Complexity.Brace
