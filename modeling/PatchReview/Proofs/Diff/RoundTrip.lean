import PatchReview.Proofs.Diff.Writing

set_option autoImplicit false

namespace PatchReview.Diff

section Paths
variable (p : Option PathName) {side : Char}

theorem before_tab_sided (hs : side ≠ '\t') :
    Text.before '\t' (' ' :: sided side p) = ' ' :: sided side p := by
  apply Text.before_of_notMem
  cases p with
  | none =>
    rw [sided_none]
    decide
  | some p =>
    rw [sided_some]
    simp [p.tab, hs.symm]

theorem trim_sided (hs : isBlank side = false) :
    Text.trim (' ' :: sided side p) = sided side p := by
  rw [Text.trim_cons_blank (by decide)]
  cases p with
  | none => rfl
  | some p =>
    have hslash : isBlank '/' = false := by decide
    have hlast := p.last
    rw [sided_some]
    refine Text.trim_eq_self (by simp [hs]) ?_
    cases ht : p.text with
    | nil => simp [hslash]
    | cons c t =>
      rw [ht] at hlast
      simpa using hlast

theorem readPath_sided (hs : side = 'a' ∨ side = 'b') :
    readPath (' ' :: sided side p) = p.map (·.text) := by
  have htab : side ≠ '\t' := by rcases hs with rfl | rfl <;> decide
  have hblank : isBlank side = false := by rcases hs with rfl | rfl <;> decide
  rw [readPath, before_tab_sided p htab, trim_sided p hblank]
  cases p with
  | none => rfl
  | some p => rcases hs with rfl | rfl <;> rfl

theorem plain_sided (hn : side ≠ '\n') (hr : side ≠ '\r') : Plain (sided side p) := by
  cases p with
  | none =>
    rw [sided_none]
    exact .of_not_blank (by decide) (by decide)
  | some p =>
    have hp : Plain p.text := .of_not_blank p.newline p.last
    exact .cons hn hr (.cons (by decide) (by decide) hp)

end Paths

section Marks
variable (old new : Option PathName)

theorem plain_oldLine : Plain (oldLine old) :=
  .append (m := "--- ".toList) (.of_notMem (by decide) (by decide))
    (plain_sided old (by decide) (by decide))

theorem plain_newLine : Plain (newLine new) :=
  .append (m := "+++ ".toList) (.of_notMem (by decide) (by decide))
    (plain_sided new (by decide) (by decide))

theorem isGitMark_gitLine : isGitMark (gitLine old new) := rfl

theorem gitLine_ne_nil : gitLine old new ≠ [] := by
  intro he
  have hd := head?_of_isGitMark (isGitMark_gitLine old new)
  simp [he] at hd

theorem plain_gitLine : Plain (gitLine old new) := by
  have hmark : Plain "diff --git ".toList := .of_notMem (by decide) (by decide)
  have ha : Plain (sided 'a' (old.or new)) := plain_sided _ (by decide) (by decide)
  have hb : Plain (sided 'b' (new.or old)) := plain_sided _ (by decide) (by decide)
  exact (hmark.append ha).append (.cons (by decide) (by decide) hb)

/-- The pair of path lines decides the paths, whatever the lines above them say. -/
theorem readLines_marks (id : Identity) (prev : Option Text) :
    Identity.readLines id prev [oldLine old, newLine new] =
      { id with
        oldPath := old.map (·.text), newPath := new.map (·.text),
        isNew := id.isNew || old.isNone, isDeleted := id.isDeleted || new.isNone } := by
  have hold : Identity.readLine prev (oldLine old) (some (newLine new)) id =
      Identity.readOldMark (oldLine old) id := rfl
  have hnew : ∀ id', Identity.readLine (some (oldLine old)) (newLine new) none id' =
      Identity.readNewMark (newLine new) id' := fun _ => rfl
  have hpo : readPath ((oldLine old).drop 3) = old.map (·.text) := readPath_sided old (.inl rfl)
  have hpn : readPath ((newLine new).drop 3) = new.map (·.text) := readPath_sided new (.inr rfl)
  simp only [Identity.readLines, List.head?_cons, List.head?_nil, hold, hnew, Identity.readOldMark,
    Identity.readNewMark, hpo, hpn, Option.isNone_map]

theorem ofHeader_gitLine :
    Identity.ofHeader [gitLine old new, oldLine old, newLine new] =
      Identity.ofHeader [oldLine old, newLine new] := by
  have hgit : Identity.readLine none (gitLine old new) (some (oldLine old)) {} =
      Identity.readGitMark (gitLine old new) {} := rfl
  have hflags : ∀ line, (Identity.readGitMark line {}).isNew = false ∧
      (Identity.readGitMark line {}).isDeleted = false ∧
      (Identity.readGitMark line {}).isRenamed = false := by
    intro line
    unfold Identity.readGitMark
    split <;> simp
  obtain ⟨hn, hd, hr⟩ := hflags (gitLine old new)
  rw [Identity.ofHeader, Identity.readLines, List.head?_cons, hgit, readLines_marks,
    Identity.ofHeader, readLines_marks]
  simp [hn, hd, hr]

end Marks

namespace HunkRecord
variable (h : HunkRecord)

theorem hunkSection : HunkSection h.lines := by
  refine .of_lines h.header.isHunkMark_line fun m hm => ?_
  obtain ⟨e, he, rfl⟩ := List.mem_map.1 hm
  have hw := h.edits_writable e he
  exact ⟨Edit.isGitMark_line hw, Edit.isHunkMark_line hw⟩

theorem ofSection_lines : Hunk.ofSection h.lines = .ok h.hunk := by
  have hedits : (h.edits.map Edit.line).map Edit.ofLine = h.edits := by
    rw [List.map_map]
    exact (List.map_congr_left (g := id) fun e he =>
      Edit.ofLine_line (h.edits_writable e he)).trans (List.map_id _)
  rw [lines, Hunk.ofSection, HunkHeader.ofLine_line h.header_readable]
  simp only [Hunk.ofLines, hedits, numbered_eq_mapIdx]
  rfl

theorem of_mem_lines {l : Text} (hl : l ∈ h.lines) : Plain l ∧ l ≠ [] ∧ isOldMark l = false := by
  rcases List.mem_cons.1 hl with rfl | hl
  · exact ⟨HunkHeader.plain_line h.header_readable.toTrimmed, by simp [HunkHeader.line], rfl⟩
  · obtain ⟨e, he, rfl⟩ := List.mem_map.1 hl
    have hw := h.edits_writable e he
    exact ⟨Edit.plain_line hw, Edit.line_ne_nil hw, Edit.isOldMark_line hw⟩

end HunkRecord

namespace FileRecord
variable (git : Bool) (r : FileRecord)

theorem hunkSection_of_mem : ∀ s ∈ r.hunks.map HunkRecord.lines, HunkSection s := by
  intro s hs
  obtain ⟨h, -, rfl⟩ := List.mem_map.1 hs
  exact h.hunkSection

theorem of_mem_hunk_lines {l : Text} (hl : l ∈ (r.hunks.map HunkRecord.lines).flatten) :
    Plain l ∧ l ≠ [] ∧ isOldMark l = false ∧ isGitMark l = false := by
  obtain ⟨s, hs, hl⟩ := List.mem_flatten.1 hl
  have hgit := (r.hunkSection_of_mem s hs).not_git l hl
  obtain ⟨h, -, rfl⟩ := List.mem_map.1 hs
  obtain ⟨hplain, hne, hold⟩ := h.of_mem_lines hl
  exact ⟨hplain, hne, hold, hgit⟩

theorem of_mem_head {l : Text} (hl : l ∈ r.head git) :
    Plain l ∧ l ≠ [] ∧ isDiffLine l = false := by
  have hpair : ∀ m ∈ [oldLine r.old, newLine r.new], Plain m ∧ m ≠ [] ∧ isDiffLine m = false := by
    intro m hm
    simp only [List.mem_cons, List.not_mem_nil, or_false] at hm
    rcases hm with rfl | rfl
    · exact ⟨plain_oldLine r.old, by simp [oldLine], rfl⟩
    · exact ⟨plain_newLine r.new, by simp [newLine], rfl⟩
  rcases List.mem_append.1 hl with hl | hl
  · cases git with
    | false => simp at hl
    | true =>
      obtain rfl : l = gitLine r.old r.new := by simpa using hl
      exact ⟨plain_gitLine r.old r.new, gitLine_ne_nil r.old r.new, rfl⟩
  · exact hpair l hl

theorem identity_ofHeader_head : Identity.ofHeader (r.head git) = (r.diff git).identity := by
  have hpair : Identity.ofHeader [oldLine r.old, newLine r.new] = (r.diff git).identity := by
    rw [Identity.ofHeader, readLines_marks]
    simp [diff]
  cases git with
  | false => exact hpair
  | true => exact (ofHeader_gitLine r.old r.new).trans hpair

theorem ofLines_lines :
    FileDiff.ofLines (Text.unlines (r.lines git)) (r.lines git) = .ok (r.diff git) := by
  have hhunks : (r.hunks.map HunkRecord.lines).mapM Hunk.ofSection =
      .ok (r.hunks.map HunkRecord.hunk) := by
    rw [List.mapM_map]
    exact mapM_eq_ok fun h _ => h.ofSection_lines
  have hhead : ∀ l ∈ r.head git, isDiffLine l = false := fun l hl => (r.of_mem_head git hl).2.2
  rw [lines, FileDiff.ofLines_append _ hhead r.hunkSection_of_mem, hhunks,
    r.identity_ofHeader_head git]
  rfl

theorem isSection_lines : IsSection (opensFile git) (r.lines git) := by
  have hbody : ∀ l ∈ (r.hunks.map HunkRecord.lines).flatten, isOldMark l = false ∧
      isGitMark l = false := fun l hl => (r.of_mem_hunk_lines hl).2.2
  cases git with
  | false =>
    refine isSection_of_pair (l := oldLine r.old) (m := newLine r.new) rfl rfl fun x hx => ?_
    rcases List.mem_cons.1 hx with rfl | hx
    · rfl
    · exact (hbody x hx).1
  | true =>
    refine isSection_of_first (isGitMark_gitLine r.old r.new) fun x hx => ?_
    rcases List.mem_cons.1 hx with rfl | hx
    · rfl
    rcases List.mem_cons.1 hx with rfl | hx
    · rfl
    · exact (hbody x hx).2

theorem fileSection : FileSection git (r.lines git) := by
  have hall : ∀ l ∈ r.lines git, Plain l ∧ l ≠ [] := by
    intro l hl
    rcases List.mem_append.1 hl with hl | hl
    · exact ⟨(r.of_mem_head git hl).1, (r.of_mem_head git hl).2.1⟩
    · exact ⟨(r.of_mem_hunk_lines hl).1, (r.of_mem_hunk_lines hl).2.1⟩
  exact ⟨r.isSection_lines git, fun l hl => (hall l hl).1, fun he =>
    (hall [] (List.mem_of_getLast? he)).2 rfl⟩

theorem any_isGitMark_lines : (r.lines git).any isGitMark = git := by
  cases git with
  | true =>
    simp [lines, head, isGitMark_gitLine]
  | false =>
    rw [List.any_eq_false]
    intro l hl
    rcases List.mem_append.1 hl with hl | hl
    · have hpair : l = oldLine r.old ∨ l = newLine r.new := by simpa [head] using hl
      rcases hpair with rfl | rfl <;> exact Bool.eq_false_iff.1 rfl
    · simp [(r.of_mem_hunk_lines hl).2.2.2]

end FileRecord

/-- Reading a written diff gives back its files. -/
theorem Document.parse_write (git : Bool) (files : List FileRecord) :
    Document.parse (write git files) = .ok ⟨files.map (FileRecord.diff git)⟩ := by
  have hsections : ∀ s ∈ files.map (FileRecord.lines git), FileSection git s := by
    intro s hs
    obtain ⟨r, -, rfl⟩ := List.mem_map.1 hs
    exact r.fileSection git
  have hgit : files.map (FileRecord.lines git) ≠ [] →
      (files.map (FileRecord.lines git)).flatten.any isGitMark = git := by
    intro hne
    obtain ⟨r, rest, rfl⟩ := List.exists_cons_of_ne_nil fun he : files = [] => hne (by rw [he]; rfl)
    cases git with
    | true => simp [r.any_isGitMark_lines]
    | false =>
      rw [List.any_eq_false]
      intro l hl
      obtain ⟨s, hs, hl⟩ := List.mem_flatten.1 hl
      obtain ⟨m, -, rfl⟩ := List.mem_map.1 hs
      exact List.any_eq_false.1 (m.any_isGitMark_lines false) l hl
  have hread : (files.map (FileRecord.lines git)).mapM
      (fun s => FileDiff.ofLines (Text.unlines s) s) = .ok (files.map (FileRecord.diff git)) := by
    rw [List.mapM_map]
    exact mapM_eq_ok fun r _ => r.ofLines_lines git
  rw [write, Document.parse_ended hsections hgit, hread]
  rfl

example :
    let header : HunkHeader := ⟨1, 2, 1, 2, "main".toList⟩
    let edits : List Edit := [⟨.context, "diff --git".toList⟩, ⟨.deletion, "-x".toList⟩,
      ⟨.addition, "+x".toList⟩, ⟨.marker, "\\ end".toList⟩]
    let name : PathName := ⟨"a b".toList, by decide, by decide, by decide⟩
    write true [⟨none, some name, [⟨header, edits, by decide, by decide⟩]⟩] =
      ("diff --git a/a b b/a b\n--- /dev/null\n+++ b/a b\n@@ -1,2 +1,2 @@ main\n".toList ++
        " diff --git\n--x\n++x\n\\ end\n".toList) := by
  decide

end PatchReview.Diff
