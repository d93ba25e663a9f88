import PatchReview.Diff.FileDiff
import PatchReview.Proofs.Diff.HeaderForm
import PatchReview.Proofs.Diff.Sections
import PatchReview.Proofs.Fallible

/-!
What becomes of the lines of a chunk. From the first line that shows a change on, each line that
is no header line and no git mark is one change of one hunk, in order, and each header line begins
a hunk. Main statement: `FileDiff.lines_of_hunks`.
-/

set_option autoImplicit false

namespace PatchReview.Diff

/-- What a line under a header shows: its kind by its first characters, its text without the
sign. -/
inductive Edit.Shown : Text → Edit → Prop where
  | addition {text : Text} : startsWith "++" text = false → Shown ('+' :: text) ⟨.addition, text⟩
  | deletion {text : Text} : startsWith "--" text = false → Shown ('-' :: text) ⟨.deletion, text⟩
  | marker (text : Text) : Shown ('\\' :: text) ⟨.marker, '\\' :: text⟩
  | indented (text : Text) : Shown (' ' :: text) ⟨.context, text⟩
  | other {line : Text} : isAddition line = false → isDeletion line = false →
      line.head? ≠ some '\\' → line.head? ≠ some ' ' → Shown line ⟨.context, line⟩

theorem startsWith_of_head? {s : String} {c : Char} {l : Text} (hs : s.toList = [c])
    (h : l.head? = some c) : startsWith s l := by
  obtain ⟨t, rfl⟩ := List.head?_eq_some_iff.1 h
  simp [startsWith, hs]

theorem Edit.shown_ofLine (l : Text) : Edit.Shown l (Edit.ofLine l) := by
  unfold Edit.ofLine
  split
  case isTrue ha =>
    obtain ⟨t, rfl⟩ := List.head?_eq_some_iff.1 (head?_of_isAddition ha)
    exact .addition (by simpa [isAddition, isNewMark, startsWith] using ha)
  case isFalse ha =>
    split
    case isTrue hd =>
      obtain ⟨t, rfl⟩ := List.head?_eq_some_iff.1 (head?_of_isDeletion hd)
      exact .deletion (by simpa [isDeletion, isOldMark, startsWith] using hd)
    case isFalse hd =>
      split
      case isTrue hm =>
        obtain ⟨t, rfl⟩ := List.head?_eq_some_iff.1 (head?_of_startsWith (c := '\\') rfl hm)
        exact .marker t
      case isFalse hm =>
        split
        case isTrue hs =>
          obtain ⟨t, rfl⟩ := List.head?_eq_some_iff.1 (head?_of_startsWith (c := ' ') rfl hs)
          exact .indented t
        case isFalse hs =>
          refine .other (Bool.not_eq_true _ ▸ ha) (Bool.not_eq_true _ ▸ hd) ?_ ?_
          · exact fun h => hm (startsWith_of_head? rfl h)
          · exact fun h => hs (startsWith_of_head? rfl h)

/-- What a header of these parts says. A missing count is one. -/
def HeaderParts.value (p : HeaderParts) : HunkHeader where
  oldStart := Text.digitsValue p.old.start
  oldCount := (p.old.count.map Text.digitsValue).getD 1
  newStart := Text.digitsValue p.new.start
  newCount := (p.new.count.map Text.digitsValue).getD 1
  text := Text.trim p.trailer

namespace HunkHeader

/-- The header that a hunk has from its header line. All starts are zero where there is no such
line or it has not the form of one. -/
inductive Heads : Option Text → HunkHeader → Prop where
  | missing : Heads none (placeholder [])
  | formless {line : Text} : (∀ p : HeaderParts, ¬p.Forms line) →
      Heads (some line) (placeholder line)
  | formed {line : Text} {p : HeaderParts} : p.Forms line → Heads (some line) p.value

theorem readNumber_eq_ok {digits : Text} {n : Nat} (h : readNumber digits = .ok n) :
    n = Text.digitsValue digits := by
  unfold readNumber at h
  split at h
  · exact (Except.ok.inj h).symm
  · simp at h

theorem readCount_eq_ok {count : Option Text} {n : Nat} (h : readCount count = .ok n) :
    n = (count.map Text.digitsValue).getD 1 := by
  cases count with
  | none => exact (Except.ok.inj h).symm
  | some digits => exact readNumber_eq_ok h

theorem ofParts_eq_ok {p : HeaderParts} {h : HunkHeader} (hp : ofParts p = .ok h) :
    h = p.value := by
  obtain ⟨newStart, hns, hp⟩ := bind_eq_ok.1 hp
  obtain ⟨oldStart, hos, hp⟩ := bind_eq_ok.1 hp
  obtain ⟨oldCount, hoc, hp⟩ := bind_eq_ok.1 hp
  obtain ⟨newCount, hnc, hp⟩ := bind_eq_ok.1 hp
  cases hp
  rw [readNumber_eq_ok hns, readNumber_eq_ok hos, readCount_eq_ok hoc, readCount_eq_ok hnc]
  rfl

theorem heads_of_ofLine {line : Text} {h : HunkHeader} (hl : ofLine line = .ok h) :
    Heads (some line) h := by
  unfold ofLine at hl
  split at hl
  case h_1 hparts =>
    cases hl
    refine .formless fun p hp => ?_
    rw [HeaderParts.ofLine?_eq_some_iff.2 hp] at hparts
    simp at hparts
  case h_2 p hparts =>
    rw [ofParts_eq_ok hl]
    exact .formed (HeaderParts.ofLine?_eq_some_iff.1 hparts)

end HunkHeader

/-- The lines of one hunk: its header line, if it has one, and what stands under it. -/
structure HunkLines where
  mark : Option Text
  content : List Text

def HunkLines.lines (p : HunkLines) : List Text := p.mark.toList ++ p.content

/-- The hunk has a change for each line under its header, in order. Additions and context lines are
counted from the start of the hunk. -/
structure HunkLines.Forms (p : HunkLines) (h : Hunk) : Prop where
  header : HunkHeader.Heads p.mark h.header
  changes : List.Forall₂ (fun l c => Edit.Shown l ⟨c.kind, c.text⟩) p.content h.changes
  numbers : ∀ (i : Nat) c, h.changes[i]? = some c → c.lineNumber =
    h.header.newStart + (h.changes.take i).countP (·.kind.inNewFile)

theorem forall₂_numbered (next : Nat) (content : List Text) :
    List.Forall₂ (fun l (c : LineChange) => Edit.Shown l ⟨c.kind, c.text⟩) content
      (numbered next (content.map Edit.ofLine)) := by
  induction content generalizing next with
  | nil => exact .nil
  | cons l content ih => exact .cons (Edit.shown_ofLine l) (ih _)

theorem lineNumber_numbered {next : Nat} {edits : List Edit} {i : Nat} {c : LineChange}
    (h : (numbered next edits)[i]? = some c) :
    c.lineNumber = next + ((numbered next edits).take i).countP (·.kind.inNewFile) := by
  induction edits generalizing next i with
  | nil => simp [numbered] at h
  | cons e edits ih =>
    cases i with
    | zero =>
      obtain rfl : (⟨e.kind, e.text, next⟩ : LineChange) = c := Option.some.inj h
      rfl
    | succ i =>
      have hc := ih (by simpa [numbered] using h)
      rw [hc, numbered, List.take_succ_cons, List.countP_cons]
      by_cases he : e.kind.inNewFile <;> simp [he]
      omega

theorem forms_ofLines {mark : Option Text} {header : HunkHeader} (h : HunkHeader.Heads mark header)
    (content : List Text) : HunkLines.Forms ⟨mark, content⟩ (Hunk.ofLines header content) where
  header := h
  changes := forall₂_numbered _ _
  numbers _ _ hc := lineNumber_numbered hc

section Sections
variable {p : Text → Bool} (ls : List Text)

theorem eq_false_of_mem_before {l : Text} (h : l ∈ (sectionsBy (fun l _ => p l) ls).1) :
    p l = false := by
  induction ls with
  | nil => simp [sectionsBy] at h
  | cons x xs ih =>
    by_cases hx : p x
    · have hcut : sectionsBy (fun l _ => p l) (x :: xs) = _ := sectionsBy_cons_of_opens hx
      simp [hcut] at h
    · rw [Bool.not_eq_true] at hx
      rw [sectionsBy_cons_of_not_opens hx, List.mem_cons] at h
      exact h.elim (fun he => he ▸ hx) ih

theorem map_head?_sections :
    (sectionsBy (fun l _ => p l) ls).2.map List.head? = (ls.filter p).map some := by
  induction ls with
  | nil => rfl
  | cons x xs ih =>
    by_cases hx : p x
    · rw [sectionsBy_cons_of_opens hx, List.filter_cons_of_pos hx, List.map_cons, ih]
      rfl
    · rw [sectionsBy_cons_of_not_opens (Bool.not_eq_true _ ▸ hx), ih, List.filter_cons_of_neg hx]

end Sections

def hunkLines (ls : List Text) : List HunkLines :=
  let (bare, headed) := sectionsBy (fun l _ => isHunkMark l) ls
  (if bare.isEmpty then [] else [⟨none, bare⟩]) ++ headed.map fun s => ⟨s.head?, s.tail⟩

section Parts
variable (ls : List Text)

theorem of_mem_hunkLines {p : HunkLines} (h : p ∈ hunkLines ls) :
    (∀ l ∈ p.mark, isHunkMark l) ∧ ∀ l ∈ p.content, isHunkMark l = false := by
  rcases List.mem_append.1 h with h | h
  · split at h
    · simp at h
    · rw [List.mem_singleton.1 h]
      exact ⟨by simp, fun l hl => eq_false_of_mem_before ls hl⟩
  · obtain ⟨s, hs, rfl⟩ := List.mem_map.1 h
    obtain ⟨l, r, rfl, hl⟩ := exists_of_mem_sections hs
    exact ⟨by simpa using hl, fun m hm => eq_false_of_mem_before r hm⟩

theorem flatMap_lines_hunkLines : (hunkLines ls).flatMap HunkLines.lines = ls := by
  conv => rhs; rw [← sectionsBy_flatten (fun l _ => isHunkMark l) ls]
  rw [hunkLines, List.flatMap_append, List.flatMap_map]
  congr 1
  · cases (sectionsBy (fun l _ => isHunkMark l) ls).1 <;> simp [HunkLines.lines]
  · rw [List.flatMap_def]
    congr 1
    refine (List.map_congr_left (g := id) fun s hs => ?_).trans (List.map_id _)
    obtain ⟨l, r, rfl, -⟩ := exists_of_mem_sections hs
    rfl

theorem flatMap_content_hunkLines :
    (hunkLines ls).flatMap (·.content) = ls.filter (!isHunkMark ·) := by
  conv => rhs; rw [← flatMap_lines_hunkLines ls, List.filter_flatMap]
  refine List.flatMap_congr fun p hp => ?_
  obtain ⟨hmark, hcontent⟩ := of_mem_hunkLines ls hp
  have hnone : p.mark.toList.filter (!isHunkMark ·) = [] :=
    List.filter_eq_nil_iff.2 fun l hl => by simp [hmark l (by simpa using hl)]
  have hall : p.content.filter (!isHunkMark ·) = p.content :=
    List.filter_eq_self.2 fun l hl => by simp [hcontent l hl]
  rw [HunkLines.lines, List.filter_append, hnone, hall, List.nil_append]

theorem map_mark_hunkLines :
    (hunkLines ls).map (·.mark) =
      (if ls.head?.all isHunkMark then [] else [none]) ++ (ls.filter isHunkMark).map some := by
  rw [hunkLines, List.map_append, List.map_map, ← map_head?_sections]
  congr 1
  cases ls with
  | nil => rfl
  | cons l rest =>
    by_cases hl : isHunkMark l
    · have hcut : sectionsBy (fun l _ => isHunkMark l) (l :: rest) = _ :=
        sectionsBy_cons_of_opens hl
      rw [hcut]
      simp [hl]
    · rw [sectionsBy_cons_of_not_opens (Bool.not_eq_true _ ▸ hl)]
      simp [hl]

end Parts

theorem forms_of_ofSection {l : Text} {content : List Text} {h : Hunk}
    (hs : Hunk.ofSection (l :: content) = .ok h) : HunkLines.Forms ⟨some l, content⟩ h := by
  obtain ⟨header, hh, he⟩ := bind_eq_ok.1 hs
  cases he
  exact forms_ofLines (HunkHeader.heads_of_ofLine hh) content

theorem forms_of_ofBody {body : List Text} {hs : List Hunk} (h : Hunk.ofBody body = .ok hs) :
    List.Forall₂ HunkLines.Forms (hunkLines (body.filter (!isGitMark ·))) hs := by
  obtain ⟨hunks, hm, he⟩ := bind_eq_ok.1 h
  cases he
  refine List.rel_append ?_ ?_
  · split
    · exact .nil
    · exact .cons (forms_ofLines .missing _) .nil
  · rw [List.forall₂_map_left_iff]
    refine forall₂_of_mapM hm fun s hs b hb => ?_
    obtain ⟨l, rest, _, rfl, -⟩ := exists_cons_of_mem_sections hs
    exact forms_of_ofSection hb

theorem head?_filter_not_isGitMark {body : List Text} (h : body.head?.all isDiffLine) :
    (body.filter (!isGitMark ·)).head? = body.head? := by
  cases body with
  | nil => rfl
  | cons l rest =>
    have hl : isGitMark l = false := by
      by_contra hg
      rw [Bool.not_eq_false] at hg
      simp [isDiffLine_of_isGitMark hg] at h
    rw [List.filter_cons_of_pos (by simp [hl])]
    rfl

theorem forall₂_flatMap_content {parts : List HunkLines} {hs : List Hunk}
    (h : List.Forall₂ HunkLines.Forms parts hs) :
    List.Forall₂ (fun l (c : LineChange) => Edit.Shown l ⟨c.kind, c.text⟩)
      (parts.flatMap (·.content)) (hs.flatMap (·.changes)) := by
  induction h with
  | nil => exact .nil
  | cons hp _ ih => exact List.rel_append hp.changes ih

theorem filter_isHunkMark (ls : List Text) :
    (ls.filter (!isGitMark ·)).filter isHunkMark = ls.filter isHunkMark := by
  rw [List.filter_filter]
  refine List.filter_congr fun l _ => ?_
  by_cases hl : isHunkMark l
  · simp [hl, isGitMark_of_isHunkMark hl]
  · simp [hl]

/-- No line above the first one that shows a change is in a hunk. From that line on, each header
line begins a hunk, and so does the first line if it is none. Each other line but a git mark is
one change of the hunk it stands in, in order. -/
theorem FileDiff.lines_of_hunks {chunk : Text} {f : FileDiff} (h : ofChunk chunk = .ok f) :
    ∃ (above below : List Text) (parts : List HunkLines),
      lines chunk = above ++ below ∧
      (∀ l ∈ above, isDiffLine l = false) ∧ below.head?.all isDiffLine ∧
      parts.flatMap HunkLines.lines = below.filter (!isGitMark ·) ∧
      parts.map (·.mark) =
        (if below.head?.all isHunkMark then [] else [none]) ++ (below.filter isHunkMark).map some ∧
      List.Forall₂ HunkLines.Forms parts f.hunks ∧
      f.hunks.length =
        below.countP isHunkMark + (if below.head?.all isHunkMark then 0 else 1) ∧
      List.Forall₂ (fun l c => Edit.Shown l ⟨c.kind, c.text⟩)
        (below.filter fun l => !isHunkMark l && !isGitMark l) f.changes := by
  obtain ⟨hunks, hb, he⟩ := bind_eq_ok.1 h
  cases he
  let above := (lines chunk).takeWhile (!isDiffLine ·)
  let below := (lines chunk).dropWhile (!isDiffLine ·)
  have habove : ∀ l ∈ above, isDiffLine l = false := fun l hl => not_isDiffLine_of_mem_header hl
  have hhead : below.head?.all isDiffLine := all_head?_body (lines chunk)
  have hmarks := map_mark_hunkLines (below.filter (!isGitMark ·))
  rw [head?_filter_not_isGitMark hhead, filter_isHunkMark] at hmarks
  have hforms := forms_of_ofBody hb
  have hchanges := forall₂_flatMap_content hforms
  rw [flatMap_content_hunkLines, List.filter_filter] at hchanges
  have hlength : hunks.length =
      below.countP isHunkMark + (if below.head?.all isHunkMark then 0 else 1) := by
    rw [← hforms.length_eq, ← List.length_map (f := (·.mark)), hmarks, List.length_append,
      List.length_map, ← List.countP_eq_length_filter, Nat.add_comm]
    split <;> rfl
  exact ⟨above, below, _, List.takeWhile_append_dropWhile.symm, habove, hhead,
    flatMap_lines_hunkLines _, hmarks, hforms, hlength, hchanges⟩

/-- A change above the first header line, a git mark and path marks among the changes, and a header
line without the form of one. -/
theorem FileDiff.lines_of_hunks_mixed :
    let chunk :=
      "note\n+a\n@@ -1 +7 @@\n--- b\n-c\r\ndiff --git a/y b/y\n\\ end\n@@ x\n d\n\n+".toList
    ∃ f, ofChunk chunk = .ok f ∧
      f.changes.map (fun c => (c.kind, c.text, c.lineNumber)) =
        [(.addition, ['a'], 0), (.context, "--- b".toList, 7), (.deletion, ['c'], 8),
          (.marker, "\\ end".toList, 8), (.context, ['d'], 0), (.context, [], 1),
          (.addition, [], 2)] ∧
      ∃ parts, parts.length = 3 ∧ List.Forall₂ HunkLines.Forms parts f.hunks := by
  intro chunk
  have hchunk : ofChunk chunk = .ok _ := rfl
  obtain ⟨_, _, parts, -, -, -, -, -, hforms, -, -⟩ := lines_of_hunks hchunk
  exact ⟨_, hchunk, by decide, parts, hforms.length_eq, hforms⟩

end PatchReview.Diff
