import PatchReview.Complexity.Blocks
import PatchReview.Proofs.Text.Lines

/-!
Where the body of a block in braces ends, and where its function ends. The body is read up to a
line at whose end as many braces are closed as were opened; the function is over at the first line
at whose end no brace of it is open. Main statement: `lines_of_mem_blocks`, the body is that of the
function unless the line that closes the function closes a brace outside it as well.
-/

set_option autoImplicit false

namespace PatchReview.Complexity

theorem mem_blocksFrom {block? : Nat → Text → List Text → Option Block} {number : Nat}
    {ls : List Text} {b : Block} :
    b ∈ blocksFrom block? number ls ↔
      ∃ before l rest, ls = before ++ l :: rest ∧
        block? (number + before.length) l rest = some b := by
  induction ls generalizing number with
  | nil => simp [blocksFrom]
  | cons l ls ih =>
    rw [blocksFrom, List.mem_append, Option.mem_toList, ih]
    constructor
    · rintro (h | ⟨before, l', rest, rfl, h⟩)
      · exact ⟨[], l, ls, rfl, h⟩
      · exact ⟨l :: before, l', rest, rfl, by rw [← h, List.length_cons]; congr 1; omega⟩
    · rintro ⟨before, l', rest, heq, h⟩
      cases before with
      | nil =>
        obtain ⟨rfl, rfl⟩ := List.cons.inj heq
        exact .inl h
      | cons k before =>
        obtain ⟨rfl, rfl⟩ := List.cons.inj heq
        exact .inr ⟨before, l', rest, rfl, by rw [← h, List.length_cons]; congr 1; omega⟩

theorem pairwise_startLine_blocksFrom {block? : Nat → Text → List Text → Option Block}
    (h : ∀ {n l rest b}, block? n l rest = some b → b.startLine = n) (number : Nat)
    (ls : List Text) : (blocksFrom block? number ls).Pairwise (·.startLine < ·.startLine) := by
  induction ls generalizing number with
  | nil => exact .nil
  | cons l ls ih =>
    have hlater : ∀ b ∈ blocksFrom block? (number + 1) ls, number < b.startLine := by
      intro b hb
      obtain ⟨before, l', rest, -, hb⟩ := mem_blocksFrom.1 hb
      rw [h hb]
      omega
    rw [blocksFrom]
    cases hfirst : block? number l ls with
    | none => exact ih (number + 1)
    | some b =>
      refine .cons (fun b' hb' => ?_) (ih (number + 1))
      rw [h hfirst]
      exact hlater b' hb'

namespace Brace

def depth (ls : List Text) : Int := Text.surplus '{' '}' (Text.unlines ls)

@[simp] theorem depth_nil : depth [] = 0 := rfl

theorem depth_cons (l : Text) (ls : List Text) :
    depth (l :: ls) = Text.surplus '{' '}' l + depth ls :=
  Text.surplus_unlines_cons (by decide) (by decide) l ls

def runUntil (stop : Int → Bool) (before : Int) : List Text → List Text
  | [] => []
  | l :: rest =>
    let after := before + Text.surplus '{' '}' l
    if stop after then [l] else l :: runUntil stop after rest

theorem closedRun_eq_runUntil (before : Int) (ls : List Text) :
    closedRun before ls = runUntil (· == 0) before ls := by
  induction ls generalizing before with
  | nil => rfl
  | cons l ls ih => simp only [closedRun, runUntil, ih, beq_iff_eq]

/-- The lines of the function that begins on the first line: up to the first at whose end none of
its braces is open. -/
def ownRun (ls : List Text) : List Text := runUntil (· ≤ 0) 0 ls

theorem runUntil_prefix (stop : Int → Bool) (before : Int) (ls : List Text) :
    runUntil stop before ls <+: ls := by
  induction ls generalizing before with
  | nil => exact List.prefix_rfl
  | cons l ls ih =>
    rw [runUntil]
    split
    · exact ⟨ls, rfl⟩
    · exact List.cons_prefix_cons.2 ⟨rfl, ih _⟩

/-- A test that is passed less often is passed later. -/
theorem runUntil_prefix_runUntil {stop stop' : Int → Bool} (h : ∀ n, stop' n → stop n)
    (before : Int) (ls : List Text) : runUntil stop before ls <+: runUntil stop' before ls := by
  induction ls generalizing before with
  | nil => exact List.prefix_rfl
  | cons l ls ih =>
    rw [runUntil, runUntil]
    split
    case isTrue =>
      split
      · exact List.prefix_rfl
      · exact ⟨_, rfl⟩
    case isFalse hstop =>
      rw [if_neg fun hstop' => hstop (h _ hstop')]
      exact List.cons_prefix_cons.2 ⟨rfl, ih _⟩

theorem runUntil_eq_iff (before : Int) (ls : List Text) :
    runUntil (· == 0) before ls = runUntil (· ≤ 0) before ls ↔
      runUntil (· ≤ 0) before ls = ls ∨ before + depth (runUntil (· ≤ 0) before ls) = 0 := by
  induction ls generalizing before with
  | nil => simp [runUntil]
  | cons l ls ih =>
    have hadd (run : List Text) : before + depth (l :: run) =
        before + Text.surplus '{' '}' l + depth run := by
      rw [depth_cons, Int.add_assoc]
    simp only [runUntil]
    generalize before + Text.surplus '{' '}' l = after at hadd ⊢
    -- Both runs end at depth zero and go on above it; below it only the second one ends.
    rcases Int.lt_trichotomy after 0 with hneg | rfl | hpos
    · have hrest : runUntil (· == 0) after ls = [] ↔ ls = [] := by
        cases ls with
        | nil => simp [runUntil]
        | cons m ms =>
          rw [runUntil]
          split <;> simp
      simp [Int.ne_of_lt hneg, Int.le_of_lt hneg, hadd, hrest]
    · simp [hadd]
    · simp [Int.ne_of_gt hpos, Int.not_le.2 hpos, hadd, ih]

/-- The body of a block begins with its function and stays in the text. It ends with its function
if and only if the text does or the function ends on a line that closes no brace outside it. -/
theorem lines_of_mem_blocks {code : Text} {b : Block} (h : b ∈ blocks code) :
    let ls := (Text.lines code).drop (b.startLine - 1)
    ownRun ls <+: b.lines ∧ b.lines <+: ls ∧
      (b.lines = ownRun ls ↔ ownRun ls = ls ∨ depth (ownRun ls) = 0) := by
  obtain ⟨before, line, rest, hlines, hb⟩ := mem_blocksFrom.1 h
  have hblock : b.startLine = 1 + before.length ∧ b.lines = closedRun 0 (line :: rest) := by
    rw [block?] at hb
    split at hb
    · obtain ⟨name, -, rfl⟩ := Option.map_eq_some_iff.1 hb
      exact ⟨rfl, rfl⟩
    · simp at hb
  have hdrop : (Text.lines code).drop (b.startLine - 1) = line :: rest := by
    rw [hlines, hblock.1, Nat.add_sub_cancel_left, List.drop_left]
  intro ls
  have hls : ls = line :: rest := hdrop
  rw [hblock.2, closedRun_eq_runUntil, hls]
  refine ⟨runUntil_prefix_runUntil (by simp) 0 _, runUntil_prefix _ 0 _, ?_⟩
  simpa [ownRun] using runUntil_eq_iff 0 (line :: rest)

/-- The method ends with the text, on a line that closes its class as well. -/
theorem lines_of_mem_blocks_last :
    let code := "class A \x7b\nf() \x7b\ng(); \x7d\x7d".toList
    let b : Block := ⟨"f".toList, 2, ["f() \x7b".toList, "g(); \x7d\x7d".toList]⟩
    b ∈ blocks code ∧ b.lines = ownRun ((Text.lines code).drop (b.startLine - 1)) := by
  intro code b
  have hb : b ∈ blocks code := by decide
  exact ⟨hb, (lines_of_mem_blocks hb).2.2.2 (by decide)⟩

/-- With the class the method is closed too, but its body goes on to the end of the text. -/
theorem lines_overrun :
    let code := "class A \x7b\nf() \x7b\nreturn 1; \x7d\x7d\nx();\n".toList
    let own := ["f() \x7b".toList, "return 1; \x7d\x7d".toList]
    let b : Block := ⟨"f".toList, 2, own ++ ["x();".toList, []]⟩
    b ∈ blocks code ∧ ownRun ((Text.lines code).drop (b.startLine - 1)) = own := by
  decide

end Brace

end PatchReview.Complexity
