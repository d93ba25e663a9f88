import Mathlib
import PatchReview.Proofs.Diff.Counts
import PatchReview.Proofs.Diff.Header
import PatchReview.Proofs.Diff.Reading

/-!
Edit scripts written as a hunk and read back. The hunk has one change for each step, but a step
whose line looks like a path mark is read as context: an insertion is lost so, and a deletion
moves the numbers of all changes below it. The exact numbers are stated for every script.
-/

set_option autoImplicit false

namespace PatchReview.Diff

inductive Step where
  | keep (text : Text)
  | delete (text : Text)
  | insert (text : Text)
  deriving DecidableEq, Repr

namespace Step

def text : Step → Text
  | keep t | delete t | insert t => t

def old? : Step → Option Text
  | keep t | delete t => some t
  | insert _ => none

def new? : Step → Option Text
  | keep t | insert t => some t
  | delete _ => none

def isInsert : Step → Bool
  | insert _ => true
  | _ => false

def isDelete : Step → Bool
  | delete _ => true
  | _ => false

def line : Step → Text
  | keep t => ' ' :: t
  | delete t => '-' :: t
  | insert t => '+' :: t

/-- A change whose line begins like a path mark. -/
def mimics : Step → Bool
  | keep _ => false
  | delete t => startsWith "--" t
  | insert t => startsWith "++" t

/-- What a reader makes of the step: lines that begin like path marks are context, with the sign. -/
def reported (s : Step) : Edit :=
  if s.mimics then ⟨.context, s.line⟩
  else match s with
    | keep t => ⟨.context, t⟩
    | delete t => ⟨.deletion, t⟩
    | insert t => ⟨.addition, t⟩

theorem isAddition_line (s : Step) : isAddition s.line = (s.isInsert && !s.mimics) := by
  cases s <;> rfl

theorem isDeletion_line (s : Step) : isDeletion s.line = (s.isDelete && !s.mimics) := by
  cases s <;> rfl

theorem ofLine_line (s : Step) : Edit.ofLine s.line = s.reported := by
  have hplain : ∀ l, isAddition l = false → isDeletion l = false → startsWith "\\" l = false →
      startsWith " " l = false → Edit.ofLine l = ⟨.context, l⟩ := by
    intro l ha hd hm hc
    simp [Edit.ofLine, ha, hd, hm, hc]
  by_cases hs : s.mimics
  · have ha : isAddition s.line = false := by simp [isAddition_line, hs]
    have hd : isDeletion s.line = false := by simp [isDeletion_line, hs]
    cases s with
    | keep t => simp [mimics] at hs
    | delete t | insert t => simp only [reported, hs, if_true, hplain _ ha hd rfl rfl]
  · have ha : isAddition s.line = s.isInsert := by simp [isAddition_line, hs]
    have hd : isDeletion s.line = s.isDelete := by simp [isDeletion_line, hs]
    cases s with
    | keep t => rfl
    | delete t | insert t =>
      rw [Edit.ofLine, ha, hd]
      simp [reported, hs, isInsert, isDelete, line]

theorem inNewFile_reported (s : Step) :
    s.reported.kind.inNewFile = (s.new?.isSome || (s.isDelete && s.mimics)) := by
  cases s with
  | keep t => rfl
  | delete t =>
    by_cases h : startsWith "--" t <;>
      simp [reported, mimics, new?, isDelete, h, ChangeKind.inNewFile]
  | insert t =>
    by_cases h : startsWith "++" t <;>
      simp [reported, mimics, new?, isDelete, h, ChangeKind.inNewFile]

end Step

def oldLines (script : List Step) : List Text := script.filterMap Step.old?

def newLines (script : List Step) : List Text := script.filterMap Step.new?

theorem length_newLines_cons (s : Step) (script : List Step) :
    (newLines (s :: script)).length =
      (newLines script).length + if s.new?.isSome then 1 else 0 := by
  cases s <;> rfl

theorem getElem?_newLines {script : List Step} {i : Nat} {s : Step} {t : Text}
    (hs : script[i]? = some s) (ht : s.new? = some t) :
    (newLines script)[(newLines (script.take i)).length]? = some t := by
  obtain ⟨hi, rfl⟩ := List.getElem?_eq_some_iff.1 hs
  have hcut : script.take i ++ script[i] :: script.drop (i + 1) = script := by
    rw [← List.drop_eq_getElem_cons hi, List.take_append_drop]
  have hnew : newLines script =
      newLines (script.take i) ++ t :: newLines (script.drop (i + 1)) := by
    rw [newLines, newLines, newLines, ← List.filterMap_cons_some ht, ← List.filterMap_append, hcut]
  rw [hnew]
  simp

structure GitHead where
  mark : Text
  rest : List Text
  isGitMark_mark : isGitMark mark
  rest_silent : ∀ l ∈ rest, isGitMark l = false ∧ isDiffLine l = false
  plain : ∀ l ∈ mark :: rest, Plain l

def scriptHeader (oldStart newStart : Nat) (trailer : Text) (script : List Step) : HunkHeader where
  oldStart := oldStart
  oldCount := (oldLines script).length
  newStart := newStart
  newCount := (newLines script).length
  text := trailer

def scriptLines (head : GitHead) (header : HunkHeader) (script : List Step) : List Text :=
  head.mark :: head.rest ++ header.line :: script.map Step.line

/-- The changes of a script's hunk. A step stands at its place in the new file, moved by the
deletions above it that are taken for context. -/
def scriptChanges (newStart : Nat) (script : List Step) : List LineChange :=
  script.mapIdx fun i s =>
    ⟨s.reported.kind, s.reported.text, newStart + (newLines (script.take i)).length +
      (script.take i).countP fun s => s.isDelete && s.mimics⟩

theorem countP_inNewFile (script : List Step) :
    (script.map Step.reported).countP (·.kind.inNewFile) =
      (newLines script).length + script.countP fun s => s.isDelete && s.mimics := by
  induction script with
  | nil => rfl
  | cons s script ih =>
    rw [List.map_cons, List.countP_cons, List.countP_cons, ih, Step.inNewFile_reported,
      length_newLines_cons]
    -- A step of the new file moves the number, and so does a deletion taken for context.
    cases s with
    | keep t | insert t => simp [Step.new?, Step.isDelete]; omega
    | delete t => simp [Step.new?]; omega

theorem numbered_reported (newStart : Nat) (script : List Step) :
    numbered newStart (script.map Step.reported) = scriptChanges newStart script := by
  rw [numbered_eq_mapIdx, scriptChanges]
  apply List.ext_getElem?
  intro i
  rw [List.getElem?_mapIdx, List.getElem?_mapIdx, List.getElem?_map, ← List.map_take,
    countP_inNewFile, Option.map_map, Nat.add_assoc]
  rfl

section
variable (head : GitHead) {header : HunkHeader} {script : List Step}

theorem Step.plain_line {s : Step} (h : '\n' ∉ s.text ∧ '\r' ∉ s.text) : Plain s.line := by
  have ht : Plain s.text := .of_notMem h.1 h.2
  cases s <;> exact .cons (by decide) (by decide) ht

theorem ofSection_script :
    Hunk.ofSection (header.line :: script.map Step.line) = (do
      let h ← HunkHeader.ofLine header.line
      .ok ⟨h, scriptChanges h.newStart script⟩) := by
  have hedits : (script.map Step.line).map Edit.ofLine = script.map Step.reported := by
    rw [List.map_map]
    exact List.map_congr_left fun s _ => s.ofLine_line
  simp only [Hunk.ofSection, Hunk.ofLines, hedits, numbered_reported]

theorem hunkSection_script : HunkSection (header.line :: script.map Step.line) := by
  refine .of_lines header.isHunkMark_line fun m hm => ?_
  obtain ⟨s, -, rfl⟩ := List.mem_map.1 hm
  cases s <;> exact ⟨rfl, rfl⟩

theorem fileSection_script (ht : header.Trimmed)
    (hs : ∀ s ∈ script, '\n' ∉ s.text ∧ '\r' ∉ s.text) :
    FileSection true (scriptLines head header script) where
  opens := by
    refine isSection_of_first head.isGitMark_mark fun m hm => ?_
    rcases List.mem_append.1 hm with hm | hm
    · exact (head.rest_silent m hm).1
    · exact hunkSection_script.not_git m hm
  plain l hl := by
    rcases List.mem_append.1 hl with hl | hl
    · exact head.plain l hl
    · rcases List.mem_cons.1 hl with rfl | hl
      · exact HunkHeader.plain_line ht
      · obtain ⟨s, hm, rfl⟩ := List.mem_map.1 hl
        exact Step.plain_line (hs s hm)
  last he := by
    rw [scriptLines, List.getLast?_append, List.getLast?_cons, Option.some_or,
      ← List.getLast?_cons] at he
    rcases List.mem_cons.1 (List.mem_of_getLast? he) with hl | hl
    · simp [HunkHeader.line] at hl
    · obtain ⟨s, -, hl⟩ := List.mem_map.1 hl
      cases s <;> simp [Step.line] at hl

theorem parse_scriptLines (ht : header.Trimmed)
    (hs : ∀ s ∈ script, '\n' ∉ s.text ∧ '\r' ∉ s.text) :
    Document.parse (Text.ended (scriptLines head header script)) = (do
      let h ← HunkHeader.ofLine header.line
      .ok ⟨[⟨Identity.ofHeader (head.mark :: head.rest), [⟨h, scriptChanges h.newStart script⟩],
        Text.unlines (scriptLines head header script)⟩]⟩) := by
  have hhead : ∀ l ∈ head.mark :: head.rest, isDiffLine l = false := by
    intro l hl
    rcases List.mem_cons.1 hl with rfl | hl
    · exact isDiffLine_of_isGitMark head.isGitMark_mark
    · exact (head.rest_silent l hl).2
  have hgit : [scriptLines head header script].flatten.any isGitMark = true := by
    simp [scriptLines, head.isGitMark_mark]
  have hfile : Document.parse (Text.ended [scriptLines head header script].flatten) = _ :=
    Document.parse_ended (by simpa using fileSection_script head ht hs) fun _ => hgit
  have hsplit : scriptLines head header script =
      head.mark :: head.rest ++ [header.line :: script.map Step.line].flatten := by
    simp [scriptLines]
  have hhunk : ∀ s ∈ [header.line :: script.map Step.line], HunkSection s := by
    simpa using hunkSection_script
  have hread := FileDiff.ofLines_append (Text.unlines (scriptLines head header script)) hhead
    hhunk
  rw [List.flatten_singleton] at hfile
  rw [← hsplit] at hread
  rw [hfile, List.mapM_cons, List.mapM_nil, hread, List.mapM_cons, List.mapM_nil, ofSection_script]
  cases HunkHeader.ofLine header.line <;> rfl

end

/-- What a script says about its hunk: insertions are additions at their places in the new file,
deletions are deletions, and nothing else is counted. -/
structure TrueTo (newStart : Nat) (script : List Step) (f : FileDiff) : Prop where
  insertions : ∀ (i : Nat) t, script[i]? = some (.insert t) →
    (newLines script)[(newLines (script.take i)).length]? = some t ∧
      f.changes[i]? = some ⟨.addition, t, newStart + (newLines (script.take i)).length⟩
  deletions : ∀ (i : Nat) t, script[i]? = some (.delete t) →
    ∃ n, f.changes[i]? = some ⟨.deletion, t, n⟩
  additionCount : f.additionCount = script.countP Step.isInsert
  deletionCount : f.deletionCount = script.countP Step.isDelete

section
variable {f : FileDiff} {header : HunkHeader} {script : List Step}

theorem count_script {k : ChangeKind} {p : Text → Bool} (hp : Shows k p) (next : Nat) :
    (scriptChanges next script).countP (·.kind == k) = script.countP fun s => p s.line := by
  rw [← numbered_reported, countP_numbered (· == k), List.countP_map]
  refine List.countP_congr fun s _ => ?_
  rw [← hp.kind, s.ofLine_line]
  rfl

variable (hf : f.hunks = [⟨header, scriptChanges header.newStart script⟩])
include hf

theorem additionCount_script :
    f.additionCount = script.countP fun s => s.isInsert && !s.mimics := by
  rw [f.additionCount_eq, FileDiff.count, hf]
  simp only [List.map_cons, List.map_nil, List.sum_cons, List.sum_nil, Hunk.count,
    count_script shows_addition, Step.isAddition_line, Nat.add_zero]

theorem deletionCount_script :
    f.deletionCount = script.countP fun s => s.isDelete && !s.mimics := by
  rw [f.deletionCount_eq, FileDiff.count, hf]
  simp only [List.map_cons, List.map_nil, List.sum_cons, List.sum_nil, Hunk.count,
    count_script shows_deletion, Step.isDeletion_line, Nat.add_zero]

theorem changes_script {i : Nat} {s : Step} (hi : script[i]? = some s) :
    f.changes[i]? = some ⟨s.reported.kind, s.reported.text,
      header.newStart + (newLines (script.take i)).length +
        (script.take i).countP fun s => s.isDelete && s.mimics⟩ := by
  have hc : f.changes = scriptChanges header.newStart script := by simp [FileDiff.changes, hf]
  rw [hc, scriptChanges, List.getElem?_mapIdx, hi]
  rfl

theorem trueTo_iff : TrueTo header.newStart script f ↔ ∀ s ∈ script, s.mimics = false := by
  constructor
  · intro h s hs
    obtain ⟨i, hi⟩ := List.mem_iff_getElem?.1 hs
    have hc := changes_script hf hi
    by_contra hm
    rw [Bool.not_eq_false] at hm
    cases s with
    | keep t => simp [Step.mimics] at hm
    | insert t =>
      rw [(h.insertions i t hi).2] at hc
      simp [Step.reported, hm] at hc
    | delete t =>
      obtain ⟨n, hn⟩ := h.deletions i t hi
      rw [hn] at hc
      simp [Step.reported, hm] at hc
  · intro h
    have hmoved : ∀ i, (script.take i).countP (fun s => s.isDelete && s.mimics) = 0 := by
      intro i
      rw [List.countP_eq_zero]
      intro s hs
      simp [h s (List.mem_of_mem_take hs)]
    refine ⟨fun i t hi => ⟨getElem?_newLines hi rfl, ?_⟩, fun i t hi => ?_, ?_, ?_⟩
    · have hm := h _ (List.mem_of_getElem? hi)
      rw [changes_script hf hi, hmoved]
      simp [Step.reported, hm]
    · have hm := h _ (List.mem_of_getElem? hi)
      rw [changes_script hf hi]
      simp [Step.reported, hm]
    · rw [additionCount_script hf]
      exact List.countP_congr fun s hs => by simp [h s hs]
    · rw [deletionCount_script hf]
      exact List.countP_congr fun s hs => by simp [h s hs]

end

/-- Every script is read step by step. Its insertions and deletions are reported at their places
unless they begin like path marks. -/
theorem Document.parse_script (head : GitHead) (oldStart newStart : Nat) (trailer : Text)
    (script : List Step) (hs : ∀ s ∈ script, '\n' ∉ s.text ∧ '\r' ∉ s.text)
    (hr : (scriptHeader oldStart newStart trailer script).Readable) :
    ∃ f, Document.parse (Text.ended
        (scriptLines head (scriptHeader oldStart newStart trailer script) script)) = .ok ⟨[f]⟩ ∧
      f.hunks = [⟨scriptHeader oldStart newStart trailer script, script.mapIdx fun i s =>
        ⟨s.reported.kind, s.reported.text, newStart + (newLines (script.take i)).length +
          (script.take i).countP fun s => s.isDelete && s.mimics⟩⟩] ∧
      f.additionCount = (script.countP fun s => s.isInsert && !s.mimics) ∧
      f.deletionCount = (script.countP fun s => s.isDelete && !s.mimics) ∧
      (TrueTo newStart script f ↔ ∀ s ∈ script, s.mimics = false) := by
  have hparse := parse_scriptLines head hr.toTrimmed hs
  rw [HunkHeader.ofLine_line hr] at hparse
  refine ⟨_, hparse, rfl, additionCount_script rfl, deletionCount_script rfl, ?_⟩
  exact @trueTo_iff _ (scriptHeader oldStart newStart trailer script) _ rfl

theorem Document.parse_script_of_long (head : GitHead) (oldStart : Nat) {newStart : Nat}
    (script : List Step) (hs : ∀ s ∈ script, '\n' ∉ s.text ∧ '\r' ∉ s.text)
    (hlong : maxDigits < (Text.ofNat newStart).length) :
    Document.parse (Text.ended
      (scriptLines head (scriptHeader oldStart newStart [] script) script)) =
        .error ⟨(Text.ofNat newStart).length⟩ := by
  have ht : (scriptHeader oldStart newStart [] script).Trimmed := ⟨by simp [scriptHeader], rfl, rfl⟩
  have hparse := parse_scriptLines head ht hs
  rw [HunkHeader.ofLine_line_of_long hlong] at hparse
  exact hparse

def sqlHead : GitHead where
  mark := "diff --git a/q.sql b/q.sql".toList
  rest := ["--- a/q.sql".toList, "+++ b/q.sql".toList]
  isGitMark_mark := rfl
  rest_silent := by decide
  plain := by decide

theorem Document.parse_script_sql :
    let script :=
      [.keep "a".toList, .delete "-- x".toList, .insert "y".toList, .insert "++i".toList]
    ∃ f, Document.parse
        (Text.ended (scriptLines sqlHead (scriptHeader 10 10 [] script) script)) = .ok ⟨[f]⟩ ∧
      f.changes = [⟨.context, "a".toList, 10⟩, ⟨.context, "--- x".toList, 11⟩,
        ⟨.addition, "y".toList, 12⟩, ⟨.context, "+++i".toList, 13⟩] ∧
      f.additionCount = 1 ∧ f.deletionCount = 0 := by
  intro script
  obtain ⟨f, hparse, hhunks, ha, hd, -⟩ :=
    Document.parse_script sqlHead 10 10 [] script (by decide) (by decide)
  refine ⟨f, hparse, ?_, ha, hd⟩
  rw [FileDiff.changes, hhunks]
  rfl

/-- A deleted line that begins with two dashes is no deletion, and the insertion below it is not at
its place. A start of more than 4300 digits is not read at all. -/
theorem exists_script_not_trueTo :
    (let script := [.delete "-- x".toList, .insert "y".toList]
      ∃ f, Document.parse
          (Text.ended (scriptLines sqlHead (scriptHeader 1 1 [] script) script)) = .ok ⟨[f]⟩ ∧
        f.changes = [⟨.context, "--- x".toList, 1⟩, ⟨.addition, "y".toList, 2⟩] ∧
        ¬ TrueTo 1 script f) ∧
    ∃ e, Document.parse
      (Text.ended (scriptLines sqlHead (scriptHeader 1 (10 ^ 4300) [] []) [])) = .error e := by
  constructor
  · exact ⟨_, rfl, rfl, fun h => absurd h.deletionCount (by decide)⟩
  · have hlong : maxDigits < (Text.ofNat (10 ^ 4300)).length := by
      rw [← Nat.not_le, maxDigits, Text.length_ofNat_le_iff (by decide)]
      exact Nat.lt_irrefl _
    exact ⟨_, Document.parse_script_of_long sqlHead 1 [] (by simp) hlong⟩

end PatchReview.Diff
