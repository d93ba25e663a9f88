import PatchReview.Authorship.Detection
import PatchReview.Coverage.Mapping
import PatchReview.Proofs.Diff.Boundaries
import PatchReview.Proofs.Pattern.Returns

set_option autoImplicit false

namespace PatchReview

-- Sums start at the zero of core in every context.
attribute [local instance (2000)] Zero.ofOfNat0

open Diff

inductive Ending where
  | newline
  | returnNewline
  deriving DecidableEq, Repr

def Ending.text : Ending → Text
  | newline => ['\n']
  | returnNewline => ['\r', '\n']

namespace Text

def endedBy (ls : List (Text × Ending)) : Text := ls.flatMap fun l => l.1 ++ l.2.text

theorem endedBy_cons (l : Text × Ending) (ls : List (Text × Ending)) :
    endedBy (l :: ls) = l.1 ++ l.2.text ++ endedBy ls := by simp [endedBy]

theorem withReturns_endedBy (ls : List (Text × Ending)) :
    WithReturns (endedBy ls) (ended (ls.map Prod.fst)) := by
  induction ls with
  | nil => exact .nil
  | cons l ls ih =>
    obtain ⟨l, e⟩ := l
    rw [endedBy_cons, List.map_cons, ended_cons, List.append_assoc]
    refine WithReturns.append_left ?_ l
    cases e with
    | newline => exact .cons '\n' ih
    | returnNewline => exact .returned ih

end Text

namespace Diff

theorem lines_endedBy {ls : List (Text × Ending)} (h : ∀ l ∈ ls, Plain l.1) :
    lines (Text.endedBy ls) = ls.map Prod.fst := by
  induction ls with
  | nil => rfl
  | cons l ls ih =>
    obtain ⟨l, e⟩ := l
    have hl : Plain l := h (l, e) List.mem_cons_self
    have hline : (l ++ e.text).getLast? = some '\n' ∧ lines (l ++ e.text) = [l] := by
      cases e with
      | newline =>
        refine ⟨by simp [Ending.text], ?_⟩
        rw [Ending.text, lines_newline, Text.lines_of_notMem hl.newline]
        simp [dropReturn_eq_self hl.getLast?]
      | returnNewline =>
        have hnot : '\n' ∉ l ++ ['\r'] := by simp [hl.newline]
        refine ⟨by simp [Ending.text], ?_⟩
        rw [Ending.text, List.append_cons, lines_newline, Text.lines_of_notMem hnot]
        simp [dropReturn_append_return]
    rw [Text.endedBy_cons, lines_append hline.1, hline.2,
      ih fun m hm => h m (List.mem_cons_of_mem _ hm)]
    rfl

end Diff

/-- Texts in the same lines, whatever ends them. -/
structure SameLines (t t' : Text) : Prop where
  lines : Diff.lines t = Diff.lines t'
  ended : ∃ u, t.WithReturns u ∧ t'.WithReturns u

theorem sameLines_endedBy {ls ls' : List (Text × Ending)}
    (hlines : ls.map Prod.fst = ls'.map Prod.fst) (h : ∀ l ∈ ls, Plain l.1) :
    SameLines (Text.endedBy ls) (Text.endedBy ls') where
  lines := by
    have h' : ∀ l ∈ ls', Plain l.1 := by
      intro l hl
      have hmem := List.mem_map_of_mem (f := Prod.fst) hl
      rw [← hlines] at hmem
      obtain ⟨m, hm, he⟩ := List.mem_map.1 hmem
      exact he ▸ h m hm
    rw [lines_endedBy h, lines_endedBy h', hlines]
  ended := ⟨_, Text.withReturns_endedBy ls, hlines ▸ Text.withReturns_endedBy ls'⟩

namespace SameLines
variable {t t' : Text} (h : SameLines t t')
include h

theorem count_eq {p : Pattern} (hmin : 0 < p.minLength) (hignores : p.ignoresReturns) :
    p.count t = p.count t' := by
  obtain ⟨u, hu, hu'⟩ := h.ended
  rw [Pattern.count_eq_of_withReturns hmin hignores hu,
    Pattern.count_eq_of_withReturns hmin hignores hu']

theorem parse_eq (hb : HasBoundary (Diff.lines t)) : Document.parse t = Document.parse t' := by
  unfold Document.parse
  rw [chunks_congr h.lines hb]

/-- Documents differ at most in the raw text of their one file, and then it has no paths. -/
theorem parse_cases : Document.parse t = Document.parse t' ∨
    ∃ f : FileDiff, Document.parse t = .ok ⟨[f.withText t]⟩ ∧
      Document.parse t' = .ok ⟨[f.withText t']⟩ ∧
      f.identity.oldPath = none ∧ f.identity.newPath = none := by
  by_cases hb : HasBoundary (Diff.lines t)
  · exact .inl (h.parse_eq hb)
  · rw [Document.parse_of_not_hasBoundary hb,
      Document.parse_of_not_hasBoundary (h.lines ▸ hb), ← h.lines]
    split
    · cases hf : FileDiff.ofLines [] (Diff.lines t) with
      | error e => exact .inl rfl
      | ok f => exact .inr ⟨f, rfl, rfl, FileDiff.paths_of_not_hasBoundary hb hf⟩
    · exact .inl rfl

end SameLines

namespace Diff

def Document.withoutTexts (d : Document) : Document := ⟨d.files.map (·.withText [])⟩

theorem Document.stats_withoutTexts (d : Document) : d.withoutTexts.stats = d.stats := by
  obtain ⟨files⟩ := d
  have hfilter (q : FileDiff → Bool) (hq : ∀ f, q (f.withText []) = q f) :
      ((files.map (·.withText [])).filter q).map (·.path) = (files.filter q).map (·.path) := by
    rw [List.filter_map, List.map_map]
    congr 2
    exact funext hq
  have hnew := hfilter (·.identity.isNew) fun _ => rfl
  have hdeleted := hfilter (·.identity.isDeleted) fun _ => rfl
  have hrenamed := hfilter (·.identity.isRenamed) fun _ => rfl
  simp only [withoutTexts, stats, hnew, hdeleted, hrenamed, additionCount, deletionCount,
    List.length_map, List.map_map]
  rfl

theorem Document.flaggedSections_withoutTexts (d : Document) :
    d.withoutTexts.files.map Authorship.flaggedSections =
      d.files.map Authorship.flaggedSections := by
  rw [withoutTexts, List.map_map]
  rfl

end Diff

namespace SameLines
variable {t t' : Text} (h : SameLines t t')
include h

theorem parse_withoutTexts : (Document.parse t).map Document.withoutTexts =
    (Document.parse t').map Document.withoutTexts := by
  rcases h.parse_cases with heq | ⟨f, hf, hf', -⟩
  · rw [heq]
  · rw [hf, hf']
    rfl

theorem parse_map_eq {β : Type} {g : Document → β} (hg : ∀ d, g d.withoutTexts = g d) :
    (Document.parse t).map g = (Document.parse t').map g := by
  have hcomp (x : Except NumberTooLong Document) :
      (x.map Document.withoutTexts).map g = x.map g := by
    cases x with
    | error e => rfl
    | ok d => exact congrArg Except.ok (hg d)
  rw [← hcomp, h.parse_withoutTexts, hcomp]

theorem detect_eq (commits : Int) : Authorship.detect t commits = Authorship.detect t' commits := by
  have hverbose (b : Bool) : (Authorship.verboseComment b).count t =
      (Authorship.verboseComment b).count t' := by
    cases b <;> exact h.count_eq (by decide) (by decide)
  have hstep (b : Bool) : (Authorship.stepComment b).count t =
      (Authorship.stepComment b).count t' := by
    cases b <;> exact h.count_eq (by decide) (by decide)
  have hname : Authorship.genericName.count t = Authorship.genericName.count t' :=
    h.count_eq (by decide) (by decide)
  have hplace : Authorship.placeholder.count t = Authorship.placeholder.count t' :=
    h.count_eq (by decide) (by decide)
  unfold Authorship.detect Authorship.Evidence.ofDocument
  rw [hname, hplace]
  rcases h.parse_cases with heq | ⟨f, hf, hf', -⟩
  · rw [heq]
  · have hcount (u : Text) (mark : Bool → Pattern) :
        Authorship.countComments ⟨[f.withText u]⟩ mark =
          (mark (Path.hasHashComments f.path)).count u := rfl
    rw [hf, hf']
    simp only [bind, Except.bind, hcount, hverbose, hstep]
    rfl

theorem mapTests_eq (changed : List Text) :
    Coverage.mapTests changed t = Coverage.mapTests changed t' := by
  unfold Coverage.mapTests
  rcases h.parse_cases with heq | ⟨f, hf, hf', hold, hnew⟩
  · rw [heq]
  · have htest (u : Text) : Coverage.touchesTest (f.withText u) = false := by
      simp [Coverage.touchesTest, FileDiff.withText, hold, hnew]
    have htext (u : Text) : Coverage.testText ⟨[f.withText u]⟩ = [] := by
      simp [Coverage.testText, htest, Text.unlines]
    rw [hf, hf']
    simp only [bind, Except.bind, htext]

end SameLines

/-- Texts in the same lines are read and reported on alike, or fail with the same error. Only the
raw text of a file is another one, if no boundary cuts the lines into files. -/
theorem reports_agree_of_endings {ls ls' : List (Text × Ending)}
    (hlines : ls.map Prod.fst = ls'.map Prod.fst) (hplain : ∀ l ∈ ls, Plain l.1) :
    let t := Text.endedBy ls
    let t' := Text.endedBy ls'
    (HasBoundary (ls.map Prod.fst) → Document.parse t = Document.parse t') ∧
    (Document.parse t).map Document.withoutTexts = (Document.parse t').map Document.withoutTexts ∧
    (Document.parse t).map Document.stats = (Document.parse t').map Document.stats ∧
    (Document.parse t).map (·.files.map Authorship.flaggedSections) =
      (Document.parse t').map (·.files.map Authorship.flaggedSections) ∧
    (∀ commits : Int, Authorship.detect t commits = Authorship.detect t' commits) ∧
    ∀ changed : List Text, Coverage.mapTests changed t = Coverage.mapTests changed t' := by
  intro t t'
  have h : SameLines t t' := sameLines_endedBy hlines hplain
  exact ⟨fun hb => h.parse_eq (lines_endedBy hplain ▸ hb), h.parse_withoutTexts,
    h.parse_map_eq Document.stats_withoutTexts,
    h.parse_map_eq Document.flaggedSections_withoutTexts, h.detect_eq, h.mapTests_eq⟩

/-- A comment that goes on behind a line's end, in lines without a boundary. -/
theorem reports_agree_of_endings_comment :
    let ls : List (Text × Ending) := [("@@ -0,0 +1,2 @@".toList, .returnNewline),
      ("+// This".toList, .returnNewline), (" is it\r.".toList, .newline), ([], .returnNewline)]
    let ls' : List (Text × Ending) := ls.map fun l => (l.1, .newline)
    let t := Text.endedBy ls
    let t' := Text.endedBy ls'
    ls.map Prod.fst = ls'.map Prod.fst ∧ (∀ l ∈ ls, Plain l.1) ∧ t ≠ t' ∧
      (Document.parse t).map Document.withoutTexts = (Document.parse t').map Document.withoutTexts ∧
      (Authorship.verboseComment false).count t = 1 ∧
      Authorship.detect t 1 = Authorship.detect t' 1 ∧
      Coverage.mapTests ["x.ts".toList] t = Coverage.mapTests ["x.ts".toList] t' := by
  intro ls ls' t t'
  have hlines : ls.map Prod.fst = ls'.map Prod.fst := by decide
  have hplain : ∀ l ∈ ls, Plain l.1 := by decide
  have h := reports_agree_of_endings hlines hplain
  exact ⟨hlines, hplain, by decide, h.2.1, by decide, h.2.2.2.2.1 1, h.2.2.2.2.2 _⟩

end PatchReview
