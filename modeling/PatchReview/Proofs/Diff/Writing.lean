import PatchReview.Proofs.Diff.Header
import PatchReview.Proofs.Diff.Reading

set_option autoImplicit false

namespace PatchReview.Diff

structure PathName where
  text : Text
  newline : '\n' ∉ text
  tab : '\t' ∉ text
  last : text.getLast?.all (!isBlank ·)

def sided (side : Char) : Option PathName → Text
  | none => "/dev/null".toList
  | some p => side :: '/' :: p.text

@[simp] theorem sided_none (side : Char) : sided side none = "/dev/null".toList := rfl

@[simp] theorem sided_some (side : Char) (p : PathName) :
    sided side (some p) = side :: '/' :: p.text := rfl

def oldLine (p : Option PathName) : Text := '-' :: '-' :: '-' :: ' ' :: sided 'a' p

def newLine (p : Option PathName) : Text := '+' :: '+' :: '+' :: ' ' :: sided 'b' p

/-- A missing path is replaced by the other one. -/
def gitLine (old new : Option PathName) : Text :=
  "diff --git ".toList ++ sided 'a' (old.or new) ++ ' ' :: sided 'b' (new.or old)

namespace Edit

structure Writable (e : Edit) : Prop where
  plain : Plain e.text
  addition : e.kind = .addition → startsWith "++" e.text = false
  deletion : e.kind = .deletion → startsWith "--" e.text = false
  marker : e.kind = .marker → startsWith "\\" e.text

instance : DecidablePred Writable := fun e =>
  decidable_of_iff (Plain e.text ∧ (e.kind = .addition → startsWith "++" e.text = false) ∧
      (e.kind = .deletion → startsWith "--" e.text = false) ∧
      (e.kind = .marker → startsWith "\\" e.text))
    ⟨fun h => ⟨h.1, h.2.1, h.2.2.1, h.2.2.2⟩, fun h => ⟨h.1, h.2, h.3, h.4⟩⟩

def line (e : Edit) : Text :=
  match e.kind with
  | .addition => '+' :: e.text
  | .deletion => '-' :: e.text
  | .context => ' ' :: e.text
  | .marker => e.text

end Edit

structure HunkRecord where
  header : HunkHeader
  edits : List Edit
  header_readable : header.Readable
  edits_writable : ∀ e ∈ edits, e.Writable

structure FileRecord where
  old : Option PathName
  new : Option PathName
  hunks : List HunkRecord

def HunkRecord.lines (h : HunkRecord) : List Text := h.header.line :: h.edits.map Edit.line

def FileRecord.head (git : Bool) (r : FileRecord) : List Text :=
  (if git then [gitLine r.old r.new] else []) ++ [oldLine r.old, newLine r.new]

def FileRecord.lines (git : Bool) (r : FileRecord) : List Text :=
  r.head git ++ (r.hunks.map HunkRecord.lines).flatten

/-- A unified diff of the files, with a `diff --git` line before every one or before none. -/
def write (git : Bool) (files : List FileRecord) : Text :=
  Text.ended (files.map (FileRecord.lines git)).flatten

/-- A record as it should be read: every change with its line number in the new file. -/
def HunkRecord.hunk (h : HunkRecord) : Hunk where
  header := h.header
  changes := h.edits.mapIdx fun i e =>
    ⟨e.kind, e.text, h.header.newStart + (h.edits.take i).countP (·.kind.inNewFile)⟩

def FileRecord.diff (git : Bool) (r : FileRecord) : FileDiff where
  identity :=
    { oldPath := r.old.map (·.text), newPath := r.new.map (·.text),
      isNew := r.old.isNone, isDeleted := r.new.isNone, isRenamed := false }
  hunks := r.hunks.map HunkRecord.hunk
  text := Text.unlines (r.lines git)

namespace Edit
variable {e : Edit}

theorem Writable.marker_cons (h : e.Writable) (hk : e.kind = .marker) :
    ∃ t, e.text = '\\' :: t := by
  obtain ⟨t, ht⟩ := List.isPrefixOf_iff_prefix.1 (h.marker hk)
  exact ⟨t, ht.symm⟩

/-- A written edit is read back, since its first characters are no path mark. -/
theorem ofLine_line (h : e.Writable) : Edit.ofLine e.line = e := by
  obtain ⟨kind, text⟩ := e
  cases kind with
  | addition =>
    have hp : isAddition ('+' :: text) = !startsWith "++" text := rfl
    simp [Edit.ofLine, line, hp, h.addition rfl]
  | deletion =>
    have ha : isAddition ('-' :: text) = false := rfl
    have hd : isDeletion ('-' :: text) = !startsWith "--" text := rfl
    simp [Edit.ofLine, line, ha, hd, h.deletion rfl]
  | context => rfl
  | marker =>
    obtain ⟨t, rfl⟩ := h.marker_cons rfl
    rfl

theorem isOldMark_line (h : e.Writable) : isOldMark e.line = false := by
  obtain ⟨kind, text⟩ := e
  cases kind with
  | deletion => exact h.deletion rfl
  | addition | context => rfl
  | marker =>
    obtain ⟨t, rfl⟩ := h.marker_cons rfl
    rfl

theorem head?_line (h : e.Writable) :
    ∃ c ∈ ['+', '-', ' ', '\\'], e.line.head? = some c := by
  obtain ⟨kind, text⟩ := e
  cases kind with
  | addition | deletion | context => exact ⟨_, by simp, rfl⟩
  | marker =>
    obtain ⟨t, rfl⟩ := h.marker_cons rfl
    exact ⟨'\\', by simp, rfl⟩

theorem isGitMark_line (h : e.Writable) : isGitMark e.line = false := by
  obtain ⟨c, hc, hl⟩ := head?_line h
  exact eq_false_of_head? head?_of_isGitMark hl (by rintro rfl; simp at hc)

theorem isHunkMark_line (h : e.Writable) : isHunkMark e.line = false := by
  obtain ⟨c, hc, hl⟩ := head?_line h
  exact eq_false_of_head? head?_of_isHunkMark hl (by rintro rfl; simp at hc)

theorem line_ne_nil (h : e.Writable) : e.line ≠ [] := by
  intro he
  obtain ⟨c, -, hl⟩ := head?_line h
  simp [he] at hl

theorem plain_line (h : e.Writable) : Plain e.line := by
  obtain ⟨kind, text⟩ := e
  cases kind with
  | addition | deletion | context => exact .cons (by decide) (by decide) h.plain
  | marker => exact h.plain

end Edit

end PatchReview.Diff
