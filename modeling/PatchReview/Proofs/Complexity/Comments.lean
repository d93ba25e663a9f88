import Mathlib.Data.List.DropRight
import PatchReview.Proofs.Complexity.Extents

/-!
Comments among the lines of a function. The nesting passes over them wherever they stand. The end
of a function does not: a comment that is indented no more than the definition ends it, as a line
of code does. Main statements: `nesting_insertLine` and `exists_block_insertLine`.
-/

set_option autoImplicit false

namespace PatchReview.Complexity

def Block.margin (b : Block) : Nat := Text.indentation (b.lines.headD [])

namespace Indent

structure IsComment (l : Text) : Prop where
  isLine : '\n' ∉ l
  head : (Text.trim l).head? = some '#'

/-- The text with a further line before its line `n`, counted from zero. -/
def insertLine (n : Nat) (l code : Text) : Text :=
  Text.unlines ((Text.lines code).take n ++ l :: (Text.lines code).drop n)

variable {c code : Text}

theorem IsComment.isBlankLine (h : IsComment c) : Text.isBlankLine c = false := by
  have hmem : '#' ∈ c := Text.mem_of_mem_trim (List.mem_of_head? h.head)
  rw [Text.isBlankLine, List.all_eq_false]
  exact ⟨'#', hmem, by decide⟩

theorem IsComment.isPassedOver (h : IsComment c) : isPassedOver c := by
  simp [Indent.isPassedOver, h.head]

theorem lines_insertLine (hc : IsComment c) (n : Nat) (code : Text) :
    Text.lines (insertLine n c code) =
      (Text.lines code).take n ++ c :: (Text.lines code).drop n := by
  refine Text.lines_unlines (by simp) fun l hl => ?_
  simp only [List.mem_append, List.mem_cons] at hl
  obtain hl | rfl | hl := hl
  · exact Text.newline_notMem_of_mem_lines (List.mem_of_mem_take hl)
  · exact hc.isLine
  · exact Text.newline_notMem_of_mem_lines (List.mem_of_mem_drop hl)

theorem deepest_append_comment (hc : IsComment c) (outer : List Nat) (upper lower : List Text) :
    deepest outer (upper ++ c :: lower) = deepest outer (upper ++ lower) := by
  induction upper generalizing outer with
  | nil => simp [deepest, hc.isPassedOver]
  | cons l upper ih => simp only [List.cons_append, deepest, ih]

/-- A comment has no say in the nesting, wherever it stands. -/
theorem nesting_insertLine (hc : IsComment c) (n : Nat) (body : Text) :
    nesting (insertLine n c body) = nesting body := by
  rw [nesting, nesting, lines_insertLine hc, deepest_append_comment hc, List.take_append_drop]

section
variable {margin : Nat} {upper lower after : List Text}

theorem IsIndentedRun.insert (h : IsIndentedRun margin (upper ++ lower) after) (hne : lower ≠ [])
    (hin : margin < Text.indentation c) : IsIndentedRun margin (upper ++ c :: lower) after where
  indented l hl := by
    simp only [List.mem_append, List.mem_cons] at hl
    obtain hl | rfl | hl := hl
    · exact h.indented l (List.mem_append_left lower hl)
    · exact fun _ => hin
    · exact h.indented l (List.mem_append_right upper hl)
  ends := by
    have hlast := h.ends
    rw [List.getLast?_append_of_ne_nil upper hne] at hlast
    rwa [List.getLast?_append_of_ne_nil upper (List.cons_ne_nil c lower),
      List.getLast?_cons_of_ne_nil hne]
  stops := h.stops

/-- Any other line that is not blank ends the run behind the last line that is not blank. -/
theorem IsIndentedRun.interrupt (h : IsIndentedRun margin (upper ++ lower) after)
    (hblank : Text.isBlankLine c = false) (hout : Text.indentation c ≤ margin) :
    IsIndentedRun margin (upper.rdropWhile Text.isBlankLine)
      (upper.rtakeWhile Text.isBlankLine ++ c :: (lower ++ after)) where
  indented l hl :=
    h.indented l (List.mem_append_left lower ((List.rdropWhile_prefix _ upper).subset hl))
  ends l hl := by
    obtain ⟨hne, rfl⟩ := List.mem_getLast?_eq_getLast hl
    simpa using List.rdropWhile_last_not Text.isBlankLine upper hne
  stops l hl := by
    have hnone : (upper.rtakeWhile Text.isBlankLine).find? (!Text.isBlankLine ·) = none := by
      simpa using fun m hm => List.mem_rtakeWhile_imp hm
    rw [List.find?_append, hnone] at hl
    simp [hblank] at hl
    exact hl ▸ hout

end

theorem IsSignature.of_ne_nil {signature rest : List Text} (h : IsSignature signature rest)
    (hne : rest ≠ []) (rest' : List Text) : IsSignature signature rest' :=
  ⟨h.ne_nil, h.isOpen, .inl (h.closed.resolve_right hne)⟩

theorem IsSignature.of_append {signature rest rest' : List Text}
    (h : IsSignature signature (rest ++ rest')) : IsSignature signature rest :=
  ⟨h.ne_nil, h.isOpen, h.closed.imp_right fun hnil => (List.append_eq_nil_iff.1 hnil).1⟩

/-- What is a signature in the body is the signature of the body. -/
theorem IsBody.split {line : Text} {rest signature inner : List Text}
    (h : IsBody line rest (signature ++ inner)) (hsignature : IsSignature signature inner) :
    ∃ after, line :: rest = signature ++ (inner ++ after) ∧
      IsIndentedRun (Text.indentation line) inner after := by
  obtain ⟨signature', run, after, hrest, hbody, hsignature', hrun⟩ := h
  obtain rfl := hsignature.unique hsignature'.of_append hbody
  obtain rfl := List.append_cancel_left hbody
  exact ⟨after, hrest, hrun⟩

theorem lines_insertLine_of_append {above below : List Text} (hc : IsComment c)
    (hcode : Text.lines code = above ++ below) :
    Text.lines (insertLine above.length c code) = above ++ c :: below := by
  rw [lines_insertLine hc, hcode, List.take_left, List.drop_left]

theorem mem_blocks_of_lines {name line : Text} (before : List Text)
    {signature run after : List Text} (hname : IsDefinition line name)
    (hsignature : IsSignature (line :: signature) (run ++ after))
    (hrun : IsIndentedRun (Text.indentation line) run after)
    (hcode : Text.lines code = before ++ (line :: signature ++ (run ++ after))) :
    ⟨name, before.length + 1, line :: signature ++ run⟩ ∈ blocks code :=
  mem_blocks.2 ⟨before, line, signature ++ (run ++ after), hcode, rfl, hname,
    line :: signature, run, after, rfl, rfl, hsignature, hrun⟩

/-- Inserted between the signature and the last line of a function, a comment becomes a line of it
exactly if it is indented more than the first line. Otherwise the function ends before it. -/
theorem exists_block_insertLine {b : Block} {signature upper lower : List Text}
    (hb : b ∈ blocks code) (hlines : b.lines = signature ++ (upper ++ lower))
    (hsignature : IsSignature signature (upper ++ lower)) (hlower : lower ≠ [])
    (hc : IsComment c) :
    ∃ b' ∈ blocks (insertLine (b.startLine - 1 + (signature ++ upper).length) c code),
      b'.name = b.name ∧ b'.startLine = b.startLine ∧
        (b'.lines = signature ++ (upper ++ c :: lower) ↔ b.margin < Text.indentation c) ∧
        (Text.indentation c ≤ b.margin →
          b'.lines = signature ++ upper.rdropWhile Text.isBlankLine) := by
  obtain ⟨before, line, rest, hcode, hstart, hname, hbody⟩ := mem_blocks.1 hb
  rw [hlines] at hbody
  obtain ⟨after, hrest, hrun⟩ := hbody.split hsignature
  obtain ⟨first, signature, rfl⟩ := List.exists_cons_of_ne_nil hsignature.ne_nil
  obtain ⟨rfl, rfl⟩ := List.cons_eq_cons.1 (hrest.trans List.cons_append)
  have hmargin : b.margin = Text.indentation line := by simp [Block.margin, hlines]
  have hclosed := hsignature.of_ne_nil (by simp [hlower])
  have hinsert : Text.lines (insertLine (b.startLine - 1 + (line :: signature ++ upper).length)
      c code) = before ++ (line :: signature ++ upper) ++ c :: (lower ++ after) := by
    rw [hstart, Nat.add_sub_cancel, ← List.length_append]
    exact lines_insertLine_of_append hc (by simpa using hcode)
  by_cases hin : b.margin < Text.indentation c
  case pos =>
    have hmem := mem_blocks_of_lines before hname (hclosed _)
      (hrun.insert hlower (hmargin ▸ hin)) (hinsert.trans (by simp))
    refine ⟨_, hmem, rfl, hstart.symm, ⟨fun _ => hin, fun _ => rfl⟩, fun hout => ?_⟩
    exact absurd hin (Nat.not_lt.2 hout)
  case neg =>
    have hcut (ls : List Text) : upper.rdropWhile Text.isBlankLine ++
        (upper.rtakeWhile Text.isBlankLine ++ ls) = upper ++ ls := by
      rw [← List.append_assoc, List.rdropWhile_append_rtakeWhile]
    have hmem := mem_blocks_of_lines before hname (hclosed _)
      (hrun.interrupt hc.isBlankLine (hmargin ▸ Nat.le_of_not_lt hin))
      (hinsert.trans (by simp [hcut]))
    refine ⟨_, hmem, rfl, hstart.symm, ⟨fun heq => ?_, fun h => absurd h hin⟩, fun _ => rfl⟩
    -- What is left of the lines above the comment is too short to hold the comment as well.
    have hle : (upper.rdropWhile Text.isBlankLine).length ≤ upper.length :=
      (List.rdropWhile_prefix _ upper).length_le
    have hlength := congrArg List.length (List.append_cancel_left heq)
    rw [List.length_append, List.length_cons] at hlength
    omega

/-- A comment in a nested block, indented as the code around it. -/
theorem exists_block_insertLine_inner :
    let code := "def f():\n  if x:\n    a()\n  b()".toList
    let b : Block := ⟨"f".toList, 1, Text.lines code⟩
    let signature := ["def f():".toList]
    let upper := ["  if x:".toList]
    let lower := ["    a()".toList, "  b()".toList]
    let c := "    # note".toList
    b ∈ blocks code ∧ b.lines = signature ++ (upper ++ lower) ∧
      IsSignature signature (upper ++ lower) ∧ lower ≠ [] ∧ IsComment c ∧
      ∃ b' ∈ blocks (insertLine 2 c code),
        b'.name = b.name ∧ b'.startLine = b.startLine ∧
          (b'.lines = signature ++ (upper ++ c :: lower) ↔ b.margin < Text.indentation c) ∧
          (Text.indentation c ≤ b.margin →
            b'.lines = signature ++ upper.rdropWhile Text.isBlankLine) := by
  intro code b signature upper lower c
  have hb : b ∈ blocks code := by decide
  have hsignature : IsSignature signature (upper ++ lower) :=
    ⟨by decide, by decide, .inl (by decide)⟩
  have hc : IsComment c := ⟨by decide, by decide⟩
  exact ⟨hb, rfl, hsignature, by decide, hc,
    exists_block_insertLine hb rfl hsignature (by decide) hc⟩

/-- A comment at the margin ends the function, and the line behind it is lost. -/
theorem comment_ends_function :
    let code := "def f():\n    a()\n    b()".toList
    let b : Block := ⟨"f".toList, 1, Text.lines code⟩
    let signature := ["def f():".toList]
    let upper := ["    a()".toList]
    let lower := ["    b()".toList]
    let c := "# note".toList
    b ∈ blocks code ∧ b.lines = signature ++ (upper ++ lower) ∧
      IsSignature signature (upper ++ lower) ∧ lower ≠ [] ∧ IsComment c ∧
      ¬∃ b' ∈ blocks (insertLine 2 c code),
        b'.name = b.name ∧ b'.startLine = b.startLine ∧
          b'.lines = signature ++ (upper ++ c :: lower) := by
  intro code b signature upper lower c
  refine ⟨by decide, rfl, ⟨by decide, by decide, .inl (by decide)⟩, by decide,
    ⟨by decide, by decide⟩, ?_⟩
  decide

end Indent

end PatchReview.Complexity
