import Mathlib.Data.List.SplitBy
import Mathlib.Data.List.TakeWhile
import PatchReview.Authorship.Detection

/-!
Runs of additions by their places. A run is maximal when no addition stands right before it or
right behind it, whatever hunks it goes over. Main statement: `flaggedSections_maximal`, the flagged
sections are those of the long and suspicious maximal runs, in the order of the changes.
-/

set_option autoImplicit false

namespace PatchReview.Authorship

open PatchReview.Diff

def isAdded (c : LineChange) : Bool := c.kind == .addition

/-- Consecutive changes, at least one, and the number of changes before them. -/
structure Run where
  position : Nat
  first : LineChange
  others : List LineChange

namespace Run

def changes (r : Run) : List LineChange := r.first :: r.others

def length (r : Run) : Nat := r.changes.length

/-- The run stands at its place among the changes, and all its changes and neither of its neighbours
are additions. -/
def IsMaximalIn (r : Run) (changes : List LineChange) : Prop :=
  ∃ before after, changes = before ++ (r.changes ++ after) ∧ before.length = r.position ∧
    (∀ c ∈ r.changes, c.kind = .addition) ∧ (∀ c ∈ before.getLast?, c.kind ≠ .addition) ∧
      ∀ c ∈ after.head?, c.kind ≠ .addition

def section? (file : Text) (r : Run) : Option FlaggedSection :=
  inspectBlock? (r.changes.map (·.text)) file r.first.lineNumber

def IsSuspicious (file : Text) (r : Run) : Prop := 30 < r.length ∧ (r.section? file).isSome

instance (file : Text) : DecidablePred (IsSuspicious file) := fun r =>
  inferInstanceAs (Decidable (30 < r.length ∧ (r.section? file).isSome))

end Run

theorem eq_false_of_mem_head?_dropWhile {p : LineChange → Bool} {changes : List LineChange}
    {c : LineChange} (h : c ∈ (changes.dropWhile p).head?) : p c = false := by
  have hstop := List.head?_dropWhile_not p changes
  rw [Option.mem_def.1 h] at hstop
  simpa using hstop

theorem eq_takeWhile_isAdded_iff {changes run : List LineChange} :
    run = changes.takeWhile isAdded ↔ ∃ after, changes = run ++ after ∧ (∀ c ∈ run, isAdded c) ∧
      ∀ c ∈ after.head?, isAdded c = false := by
  constructor
  · rintro rfl
    exact ⟨changes.dropWhile isAdded, List.takeWhile_append_dropWhile.symm,
      fun c => List.mem_takeWhile_imp, fun c => eq_false_of_mem_head?_dropWhile⟩
  · rintro ⟨after, rfl, hrun, hafter⟩
    rw [List.takeWhile_append_of_pos hrun]
    cases after with
    | nil => exact (List.append_nil run).symm
    | cons c after => simp [hafter c rfl]

theorem additionRuns_append {xs ys : List LineChange}
    (h : ∀ x ∈ xs.getLast?, ∀ y ∈ ys.head?, isAdded x ≠ isAdded y) :
    additionRuns (xs ++ ys) = additionRuns xs ++ additionRuns ys := by
  have hborder : ∀ x ∈ xs.getLast?, ∀ y ∈ ys.head?, (isAdded x == isAdded y) = false :=
    fun x hx y hy => beq_false_of_ne (h x hx y hy)
  exact (congrArg (List.filter _) (List.splitBy_append hborder)).trans (List.filter_append ..)

theorem additionRuns_of_none {xs : List LineChange} (h : ∀ c ∈ xs, isAdded c = false) :
    additionRuns xs = [] := by
  refine List.filter_eq_nil_iff.2 fun run hrun => ?_
  have hsub : ∀ c ∈ run, c ∈ xs := fun c hc => by
    rw [← List.flatten_splitBy _ xs]
    exact List.mem_flatten_of_mem hrun hc
  rw [List.any_eq_true]
  rintro ⟨c, hc, hadded⟩
  exact Bool.false_ne_true ((h c (hsub c hc)).symm.trans hadded)

theorem additionRuns_of_all {c : LineChange} {xs : List LineChange}
    (h : ∀ x ∈ c :: xs, isAdded x) : additionRuns (c :: xs) = [c :: xs] := by
  have hchain : (c :: xs).IsChain fun x y => isAdded x == isAdded y :=
    List.Pairwise.isChain <| List.pairwise_of_forall_mem_list fun x hx y hy => by
      rw [h x hx, h y hy]
      rfl
  have hsplit : (c :: xs).splitBy (fun x y => isAdded x == isAdded y) = [c :: xs] :=
    List.splitBy_of_isChain (List.cons_ne_nil c xs) hchain
  have hany : (c :: xs).any isAdded := List.any_eq_true.2 ⟨c, by simp, h c (by simp)⟩
  exact (congrArg (List.filter _) hsplit).trans (List.filter_cons_of_pos hany)

theorem additionRuns_gap_append {gap later : List LineChange} (hgap : ∀ c ∈ gap, isAdded c = false)
    (hlater : ∀ c ∈ later.head?, isAdded c) : additionRuns (gap ++ later) = additionRuns later := by
  have hborder : ∀ x ∈ gap.getLast?, ∀ y ∈ later.head?, isAdded x ≠ isAdded y := by
    intro x hx y hy
    rw [hgap x (List.mem_of_mem_getLast? hx), hlater y hy]
    exact Bool.false_ne_true
  rw [additionRuns_append hborder, additionRuns_of_none hgap, List.nil_append]

/-- The gap before a run goes up to its first addition, whether it is longer by one or not. -/
theorem additionRuns_cons_of_not {c : LineChange} (hc : isAdded c = false)
    (rest : List LineChange) : additionRuns (c :: rest) = additionRuns rest := by
  have hgap : ∀ x ∈ rest.takeWhile (!isAdded ·), isAdded x = false := fun x hx => by
    simpa using List.mem_takeWhile_imp hx
  have hlater : ∀ x ∈ (rest.dropWhile (!isAdded ·)).head?, isAdded x := fun x hx => by
    simpa using eq_false_of_mem_head?_dropWhile hx
  have hcut : rest.takeWhile (!isAdded ·) ++ rest.dropWhile (!isAdded ·) = rest :=
    List.takeWhile_append_dropWhile
  calc additionRuns (c :: rest)
      = additionRuns ((c :: rest.takeWhile (!isAdded ·)) ++ rest.dropWhile (!isAdded ·)) := by
        rw [List.cons_append, hcut]
    _ = additionRuns (rest.dropWhile (!isAdded ·)) :=
        additionRuns_gap_append (List.forall_mem_cons.2 ⟨hc, hgap⟩) hlater
    _ = additionRuns rest := by rw [← additionRuns_gap_append hgap hlater, hcut]

theorem additionRuns_cons_of_added {c : LineChange} (hc : isAdded c) (rest : List LineChange) :
    additionRuns (c :: rest) =
      (c :: rest.takeWhile isAdded) :: additionRuns (rest.dropWhile isAdded) := by
  have hall : ∀ x ∈ c :: rest.takeWhile isAdded, isAdded x :=
    List.forall_mem_cons.2 ⟨hc, fun x hx => List.mem_takeWhile_imp hx⟩
  have hborder : ∀ x ∈ (c :: rest.takeWhile isAdded).getLast?,
      ∀ y ∈ (rest.dropWhile isAdded).head?, isAdded x ≠ isAdded y := by
    intro x hx y hy
    rw [hall x (List.mem_of_mem_getLast? hx), eq_false_of_mem_head?_dropWhile hy]
    exact Bool.false_ne_true.symm
  calc additionRuns (c :: rest)
      = additionRuns ((c :: rest.takeWhile isAdded) ++ rest.dropWhile isAdded) := by
        rw [List.cons_append, List.takeWhile_append_dropWhile]
    _ = _ := by rw [additionRuns_append hborder, additionRuns_of_all hall, List.singleton_append]

/-- Runs that begin among the changes from position `n` on, behind an addition or not. -/
def runsFrom (n : Nat) (behindAdded : Bool) : List LineChange → List Run
  | [] => []
  | c :: rest =>
    (if isAdded c && !behindAdded then [⟨n, c, rest.takeWhile isAdded⟩] else []) ++
      runsFrom (n + 1) (isAdded c) rest

theorem map_changes_runsFrom (n : Nat) (behindAdded : Bool) (changes : List LineChange) :
    (runsFrom n behindAdded changes).map Run.changes =
      additionRuns (if behindAdded then changes.dropWhile isAdded else changes) := by
  induction changes generalizing n behindAdded with
  | nil => cases behindAdded <;> rfl
  | cons c rest ih =>
    rw [runsFrom, List.map_append, ih]
    cases hc : isAdded c with
    | false => cases behindAdded <;> simp [hc, additionRuns_cons_of_not hc]
    | true => cases behindAdded <;> simp [hc, additionRuns_cons_of_added hc, Run.changes]

theorem pairwise_runsFrom (n : Nat) (behindAdded : Bool) (changes : List LineChange) :
    (∀ r ∈ runsFrom n behindAdded changes, n ≤ r.position) ∧
      (runsFrom n behindAdded changes).Pairwise (·.position < ·.position) := by
  induction changes generalizing n behindAdded with
  | nil => simp [runsFrom]
  | cons c rest ih =>
    obtain ⟨hle, hpairwise⟩ := ih (n + 1) (isAdded c)
    have hrest : ∀ r ∈ runsFrom (n + 1) (isAdded c) rest, n ≤ r.position :=
      fun r hr => Nat.le_of_succ_le (hle r hr)
    rw [runsFrom]
    by_cases hstart : isAdded c && !behindAdded
    · rw [if_pos hstart, List.singleton_append]
      exact ⟨List.forall_mem_cons.2 ⟨Nat.le_refl n, hrest⟩, .cons hle hpairwise⟩
    · rw [if_neg hstart]
      exact ⟨hrest, hpairwise⟩

def IsMaximalFrom (n : Nat) (behindAdded : Bool) (changes : List LineChange) (r : Run) : Prop :=
  ∃ before after, changes = before ++ (r.changes ++ after) ∧ n + before.length = r.position ∧
    (∀ c ∈ r.changes, isAdded c) ∧ before.getLast?.elim behindAdded isAdded = false ∧
      ∀ c ∈ after.head?, isAdded c = false

theorem isMaximalFrom_zero {changes : List LineChange} {r : Run} :
    IsMaximalFrom 0 false changes r ↔ r.IsMaximalIn changes := by
  have hadded : ∀ c : LineChange, isAdded c ↔ c.kind = .addition := fun c => beq_iff_eq
  have hnot : ∀ c : LineChange, isAdded c = false ↔ c.kind ≠ .addition :=
    fun c => beq_eq_false_iff_ne
  have hlast : ∀ before : List LineChange, before.getLast?.elim false isAdded = false ↔
      ∀ c ∈ before.getLast?, c.kind ≠ .addition := fun before => by
    cases before.getLast? <;> simp [hnot]
  simp only [IsMaximalFrom, Run.IsMaximalIn, Nat.zero_add, hlast, hadded, hnot]

theorem elim_getLast?_cons (behindAdded : Bool) (c : LineChange) (before : List LineChange) :
    (c :: before).getLast?.elim behindAdded isAdded =
      before.getLast?.elim (isAdded c) isAdded := by
  rw [List.getLast?_cons]
  cases before.getLast? <;> rfl

theorem isMaximalFrom_cons {n : Nat} {behindAdded : Bool} {c : LineChange}
    {rest : List LineChange} {r : Run} :
    IsMaximalFrom n behindAdded (c :: rest) r ↔
      (isAdded c ∧ behindAdded = false ∧ r = ⟨n, c, rest.takeWhile isAdded⟩) ∨
        IsMaximalFrom (n + 1) (isAdded c) rest r := by
  constructor
  · rintro ⟨before, after, hsplit, hposition, hall, hbefore, hafter⟩
    cases before with
    | nil =>
      obtain ⟨position, first, others⟩ := r
      obtain ⟨rfl, hrest⟩ := List.cons.inj hsplit
      obtain ⟨hc, hothers⟩ := List.forall_mem_cons.1 hall
      obtain rfl : n = position := hposition
      obtain rfl := eq_takeWhile_isAdded_iff.2 ⟨after, hrest, hothers, hafter⟩
      exact .inl ⟨hc, hbefore, rfl⟩
    | cons b before =>
      obtain ⟨rfl, rfl⟩ := List.cons.inj hsplit
      refine .inr ⟨before, after, rfl, ?_, hall, ?_, hafter⟩
      · rw [← hposition, List.length_cons]
        omega
      · rwa [elim_getLast?_cons] at hbefore
  · rintro (⟨hc, hbehind, rfl⟩ | ⟨before, after, rfl, hposition, hall, hbefore, hafter⟩)
    · obtain ⟨after, hrest, hadded, hafter⟩ :=
        eq_takeWhile_isAdded_iff.1 (Eq.refl (rest.takeWhile isAdded))
      exact ⟨[], after, congrArg (c :: ·) hrest, rfl, List.forall_mem_cons.2 ⟨hc, hadded⟩, hbehind,
        hafter⟩
    · refine ⟨c :: before, after, rfl, ?_, hall, ?_, hafter⟩
      · rw [← hposition, List.length_cons]
        omega
      · rwa [elim_getLast?_cons]

theorem mem_runsFrom {n : Nat} {behindAdded : Bool} {changes : List LineChange} {r : Run} :
    r ∈ runsFrom n behindAdded changes ↔ IsMaximalFrom n behindAdded changes r := by
  induction changes generalizing n behindAdded with
  | nil => simp [runsFrom, IsMaximalFrom, Run.changes]
  | cons c rest ih =>
    have hfirst : r ∈ (if isAdded c && !behindAdded then [⟨n, c, rest.takeWhile isAdded⟩] else []) ↔
        isAdded c ∧ behindAdded = false ∧ r = ⟨n, c, rest.takeWhile isAdded⟩ := by
      simp [and_assoc]
    rw [runsFrom, List.mem_append, ih, isMaximalFrom_cons, hfirst]

theorem eq_of_inspectBlock? {lines : List Text} {file : Text} {start : Int} {s : FlaggedSection}
    (h : inspectBlock? lines file start = some s) :
    s.startLine = start ∧ s.endLine = start + lines.length := by
  rw [inspectBlock?] at h
  split at h
  · cases h
  · cases h
    exact ⟨rfl, rfl⟩

theorem forall₂_filterMap_section? (file : Text) (runs : List Run) :
    List.Forall₂ (fun r s => r.section? file = some s) (runs.filter (·.IsSuspicious file))
      (runs.filterMap fun r => inspectRun? file r.changes) := by
  have hinspect (r : Run) :
      inspectRun? file r.changes = if 30 < r.length then r.section? file else none := rfl
  induction runs with
  | nil => exact .nil
  | cons r runs ih =>
    by_cases hlong : 30 < r.length
    · cases hs : r.section? file with
      | none => simpa [hinspect, Run.IsSuspicious, hlong, hs] using ih
      | some s => simpa [hinspect, Run.IsSuspicious, hlong, hs] using ih
    · simpa [hinspect, Run.IsSuspicious, hlong] using ih

/-- One section for each maximal run that is long and suspicious, and no other. -/
theorem flaggedSections_maximal (f : FileDiff) :
    ∃ runs : List Run, runs.Pairwise (·.position < ·.position) ∧
      (∀ r, r ∈ runs ↔ r.IsMaximalIn f.changes) ∧
      List.Forall₂ (fun (r : Run) (s : FlaggedSection) => r.section? f.path = some s ∧
          s.startLine = r.first.lineNumber ∧ s.endLine = s.startLine + r.length)
        (runs.filter (·.IsSuspicious f.path)) (flaggedSections f) := by
  have hruns : (runsFrom 0 false f.changes).map Run.changes = additionRuns f.changes :=
    map_changes_runsFrom 0 false f.changes
  refine ⟨runsFrom 0 false f.changes, (pairwise_runsFrom 0 false f.changes).2,
    fun r => mem_runsFrom.trans isMaximalFrom_zero, ?_⟩
  rw [flaggedSections, ← hruns, List.filterMap_map]
  refine (forall₂_filterMap_section? f.path _).imp fun r s hs => ?_
  obtain ⟨hstart, hend⟩ := eq_of_inspectBlock? hs
  refine ⟨hs, hstart, ?_⟩
  rw [hend, hstart, List.length_map]
  rfl

end PatchReview.Authorship
