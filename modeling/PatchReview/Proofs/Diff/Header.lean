import PatchReview.Diff.Hunk
import PatchReview.Proofs.Diff.Lines
import PatchReview.Proofs.Text.Decimal

set_option autoImplicit false

namespace PatchReview.Diff

theorem digits?_ofNat (n : Nat) {c : Char} (hc : isDigit c = false) (rest : Text) :
    digits? (Text.ofNat n ++ c :: rest) = some (Text.ofNat n, c :: rest) := by
  have hall : ∀ d ∈ Text.ofNat n, isDigit d := fun d hd =>
    isDigit_of_isDigit (Text.isDigit_of_mem_ofNat hd)
  have htake : (Text.ofNat n ++ c :: rest).takeWhile isDigit = Text.ofNat n := by
    rw [List.takeWhile_append_of_pos hall, List.takeWhile_cons_of_neg (by simp [hc]),
      List.append_nil]
  have hdrop : (Text.ofNat n ++ c :: rest).dropWhile isDigit = c :: rest := by
    rw [List.dropWhile_append_of_pos hall, List.dropWhile_cons_of_neg (by simp [hc])]
  simp [digits?, htake, hdrop, Text.ofNat_ne_nil]

def rangeText (sign : Char) (start count : Nat) : Text :=
  sign :: (Text.ofNat start ++ ',' :: Text.ofNat count)

theorem range?_rangeText (sign : Char) (start count : Nat) {c : Char} (hc : isDigit c = false)
    (rest : Text) :
    range? sign (rangeText sign start count ++ c :: rest) =
      some (⟨Text.ofNat start, some (Text.ofNat count)⟩, c :: rest) := by
  have hstart := digits?_ofNat start (c := ',') (by decide) (Text.ofNat count ++ c :: rest)
  simp [range?, rangeText, after?, hstart, digits?_ofNat count hc]

theorem afterMark?_mark (t : Text) : afterMark? ('@' :: '@' :: t) = some t := rfl

theorem afterBlanks?_space {c : Char} (hc : isBlank c = false) (t : Text) :
    afterBlanks? (' ' :: c :: t) = some (c :: t) := by
  have hs : isBlank ' ' := by decide
  simp [afterBlanks?, hs, hc]

theorem afterBlanks?_rangeText {sign : Char} (hs : isBlank sign = false) (start count : Nat)
    (t : Text) :
    afterBlanks? (' ' :: (rangeText sign start count ++ t)) =
      some (rangeText sign start count ++ t) :=
  afterBlanks?_space hs _

theorem readNumber_ofNat {n : Nat} (h : (Text.ofNat n).length ≤ maxDigits) :
    readNumber (Text.ofNat n) = .ok n := by
  simp [readNumber, h]

namespace HunkHeader

def line (h : HunkHeader) : Text :=
  '@' :: '@' :: ' ' :: (rangeText '-' h.oldStart h.oldCount ++
    ' ' :: (rangeText '+' h.newStart h.newCount ++ ' ' :: '@' :: '@' :: ' ' :: h.text))

theorem ofLine?_line (h : HunkHeader) :
    HeaderParts.ofLine? h.line = some
      ⟨⟨Text.ofNat h.oldStart, some (Text.ofNat h.oldCount)⟩,
        ⟨Text.ofNat h.newStart, some (Text.ofNat h.newCount)⟩, ' ' :: h.text⟩ := by
  have hold := range?_rangeText '-' h.oldStart h.oldCount (c := ' ') (by decide)
  have hnew := range?_rangeText '+' h.newStart h.newCount (c := ' ') (by decide)
  have hm := afterBlanks?_rangeText (by decide : isBlank '-' = false) h.oldStart h.oldCount
  have hp := afterBlanks?_rangeText (by decide : isBlank '+' = false) h.newStart h.newCount
  have hend := afterBlanks?_space (c := '@') (by decide)
  simp only [HeaderParts.ofLine?, line, afterMark?_mark, Option.bind_eq_bind, Option.bind_some, hm,
    hold, hp, hnew, hend]

structure Trimmed (h : HunkHeader) : Prop where
  newline : '\n' ∉ h.text
  head : h.text.head?.all (!isBlank ·)
  last : h.text.getLast?.all (!isBlank ·)

/-- A header that is read back: no number is too long, and nothing of the trailer goes. -/
structure Readable (h : HunkHeader) : Prop extends h.Trimmed where
  oldStart : (Text.ofNat h.oldStart).length ≤ maxDigits
  oldCount : (Text.ofNat h.oldCount).length ≤ maxDigits
  newStart : (Text.ofNat h.newStart).length ≤ maxDigits
  newCount : (Text.ofNat h.newCount).length ≤ maxDigits

instance : DecidablePred Readable := fun h =>
  decidable_of_iff ('\n' ∉ h.text ∧ h.text.head?.all (!isBlank ·) ∧
      h.text.getLast?.all (!isBlank ·) ∧ ∀ n ∈ [h.oldStart, h.oldCount, h.newStart, h.newCount],
        (Text.ofNat n).length ≤ maxDigits) <| by
    constructor
    · rintro ⟨hn, hh, hl, hd⟩
      exact ⟨⟨hn, hh, hl⟩, hd _ (by simp), hd _ (by simp), hd _ (by simp), hd _ (by simp)⟩
    · intro h
      refine ⟨h.newline, h.head, h.last, ?_⟩
      simp [h.oldStart, h.oldCount, h.newStart, h.newCount]

theorem ofLine_line {h : HunkHeader} (hr : h.Readable) : ofLine h.line = .ok h := by
  have htrim : Text.trim (' ' :: h.text) = h.text := by
    rw [Text.trim_cons_blank (by decide), Text.trim_eq_self hr.head hr.last]
  rw [ofLine, ofLine?_line]
  simp only [ofParts, readCount, readNumber_ofNat hr.newStart, readNumber_ofNat hr.oldStart,
    readNumber_ofNat hr.oldCount, readNumber_ofNat hr.newCount, htrim]
  rfl

theorem ofLine_line_of_long {h : HunkHeader} (hlong : maxDigits < (Text.ofNat h.newStart).length) :
    ofLine h.line = .error ⟨(Text.ofNat h.newStart).length⟩ := by
  have hread : readNumber (Text.ofNat h.newStart) = .error ⟨(Text.ofNat h.newStart).length⟩ := by
    simp [readNumber, hlong]
  rw [ofLine, ofLine?_line]
  simp only [ofParts, hread]
  rfl

theorem isHunkMark_line (h : HunkHeader) : isHunkMark h.line := rfl

theorem plain_line {h : HunkHeader} (ht : h.Trimmed) : Plain h.line := by
  have htext : Plain h.text := .of_not_blank ht.newline ht.last
  have hline : h.line = ("@@ ".toList ++ rangeText '-' h.oldStart h.oldCount ++ ' ' ::
      rangeText '+' h.newStart h.newCount ++ " @@ ".toList) ++ h.text := by simp [line]
  have hn : ∀ n, '\n' ∉ Text.ofNat n := fun _ => Text.notMem_ofNat (by decide)
  have hr : ∀ n, '\r' ∉ Text.ofNat n := fun _ => Text.notMem_ofNat (by decide)
  rw [hline]
  refine .append (.of_notMem ?_ ?_) htext
  · simp [rangeText, hn]
  · simp [rangeText, hr]

end HunkHeader

end PatchReview.Diff
