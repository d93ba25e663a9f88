import Mathlib.Data.List.Chain
import PatchReview.Diff.FileDiff
import PatchReview.Proofs.Fallible

/-!
Line numbers of a whole file. The hunks of a chunk number their changes from where they start, so
as long as each hunk begins behind the lines of the one before, the number of a change counts at
least the lines from any earlier change to it. Main statement: `isSpaced_changes_of_ofChunk`.
-/

set_option autoImplicit false

namespace PatchReview.Diff

/-- Every change has at least the number that the change before it and its line lead to. -/
def IsSpaced (next : Nat) : List LineChange → Prop
  | [] => True
  | c :: rest =>
    next ≤ c.lineNumber ∧ IsSpaced (c.lineNumber + if c.kind.inNewFile then 1 else 0) rest

theorem IsSpaced.mono {m n : Nat} {changes : List LineChange} (h : IsSpaced n changes)
    (hmn : m ≤ n) : IsSpaced m changes := by
  cases changes with
  | nil => trivial
  | cons c rest => exact ⟨hmn.trans h.1, h.2⟩

theorem IsSpaced.of_append {next : Nat} {xs ys : List LineChange} (h : IsSpaced next (xs ++ ys)) :
    IsSpaced (next + xs.countP (·.kind.inNewFile)) ys := by
  induction xs generalizing next with
  | nil => exact h
  | cons c xs ih =>
    refine (ih h.2).mono ?_
    have hc : next ≤ c.lineNumber := h.1
    rw [List.countP_cons]
    omega

theorem isSpaced_numbered_append {next start : Nat} {edits : List Edit} {rest : List LineChange}
    (hnext : next ≤ start)
    (hrest : IsSpaced (start + (numbered start edits).countP (·.kind.inNewFile)) rest) :
    IsSpaced next (numbered start edits ++ rest) := by
  induction edits generalizing next start with
  | nil => exact hrest.mono hnext
  | cons e edits ih =>
    rw [numbered, List.countP_cons] at hrest
    refine ⟨hnext, ih ?_ (hrest.mono ?_)⟩
    · by_cases he : e.kind.inNewFile <;> simp [he]
    · by_cases he : e.kind.inNewFile <;> simp [he]
      omega

namespace Hunk

def newLineCount (h : Hunk) : Nat := h.changes.countP (·.kind.inNewFile)

/-- The changes are numbered one after the other from the start of the hunk. -/
def IsNumbered (h : Hunk) : Prop := ∃ edits, h.changes = numbered h.header.newStart edits

theorem isNumbered_ofLines (header : HunkHeader) (content : List Text) :
    (ofLines header content).IsNumbered := ⟨_, rfl⟩

theorem isNumbered_of_ofSection {s : List Text} {h : Hunk} (hs : ofSection s = .ok h) :
    h.IsNumbered := by
  cases s with
  | nil =>
    cases hs
    exact isNumbered_ofLines _ _
  | cons line content =>
    obtain ⟨header, -, hh⟩ := bind_eq_ok.1 hs
    cases hh
    exact isNumbered_ofLines _ _

theorem isNumbered_of_ofBody {body : List Text} {hs : List Hunk} (h : ofBody body = .ok hs) :
    ∀ h ∈ hs, h.IsNumbered := by
  obtain ⟨hunks, hm, he⟩ := bind_eq_ok.1 h
  cases he
  intro h hh
  rcases List.mem_append.1 hh with hh | hh
  · split at hh
    · simp at hh
    · rw [List.mem_singleton.1 hh]
      exact isNumbered_ofLines _ _
  · obtain ⟨s, -, hs⟩ := exists_of_mem_of_mapM hm hh
    exact isNumbered_of_ofSection hs

end Hunk

namespace FileDiff

def HunksAscend (f : FileDiff) : Prop :=
  f.hunks.IsChain fun h h' => h.header.newStart + h.newLineCount ≤ h'.header.newStart

instance : DecidablePred HunksAscend := fun f =>
  inferInstanceAs (Decidable (f.hunks.IsChain fun h h' =>
    h.header.newStart + h.newLineCount ≤ h'.header.newStart))

end FileDiff

theorem isSpaced_flatMap {hs : List Hunk} (hnumbered : ∀ h ∈ hs, h.IsNumbered)
    (hascend : hs.IsChain fun h h' => h.header.newStart + h.newLineCount ≤ h'.header.newStart)
    {next : Nat} (hnext : ∀ h ∈ hs.head?, next ≤ h.header.newStart) :
    IsSpaced next (hs.flatMap (·.changes)) := by
  induction hs generalizing next with
  | nil => trivial
  | cons h hs ih =>
    obtain ⟨⟨edits, hedits⟩, hrest⟩ := List.forall_mem_cons.1 hnumbered
    obtain ⟨hhead, htail⟩ := List.isChain_cons.1 hascend
    rw [List.flatMap_cons, hedits]
    refine isSpaced_numbered_append (hnext h rfl) ?_
    rw [← hedits]
    exact ih hrest htail hhead

theorem FileDiff.isSpaced_changes_of_ofChunk {chunk : Text} {f : FileDiff}
    (h : FileDiff.ofChunk chunk = .ok f) (hascend : f.HunksAscend) : IsSpaced 0 f.changes := by
  obtain ⟨hunks, hb, he⟩ := bind_eq_ok.1 h
  cases he
  exact isSpaced_flatMap (Hunk.isNumbered_of_ofBody hb) hascend fun _ _ => Nat.zero_le _

end PatchReview.Diff
