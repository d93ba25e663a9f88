import PatchReview.Tools.Call

set_option autoImplicit false

namespace PatchReview.Tools

namespace Checked

/-- The value read has the property and there are no problems, or just the problems are given. -/
def Reads {α : Type} (x : Checked α) (problems : List Problem) (Fits : α → Prop) : Prop :=
  match x with
  | .ok a => problems = [] ∧ Fits a
  | .error found => found = problems ∧ problems ≠ []

variable {α β : Type} {x : Checked α} {y : Checked β} {p q : List Problem}
variable {P : α → Prop} {Q : β → Prop}

theorem reads_fail (location : Text) (fault : Fault) :
    (fail location fault : Checked α).Reads [⟨location, fault⟩] P :=
  ⟨rfl, List.cons_ne_nil _ _⟩

theorem Reads.both (hx : x.Reads p P) (hy : y.Reads q Q) :
    (x.both y).Reads (p ++ q) fun a => P a.1 ∧ Q a.2 := by
  match x, y, hx, hy with
  | .ok a, .ok b, ⟨hp, ha⟩, ⟨hq, hb⟩ => exact ⟨by simp [hp, hq], ha, hb⟩
  | .ok a, .error found, ⟨hp, ha⟩, ⟨hfound, hne⟩ => exact ⟨by simp [hp, hfound], by simp [hne]⟩
  | .error found, .ok b, ⟨hfound, hne⟩, ⟨hq, hb⟩ => exact ⟨by simp [hq, hfound], by simp [hne]⟩
  | .error found, .error found', ⟨hfound, hne⟩, ⟨hfound', hne'⟩ =>
    exact ⟨by rw [hfound, hfound'], by simp [hne]⟩

theorem Reads.map {f : α → β} (hx : x.Reads p P) (hf : ∀ a, P a → Q (f a)) :
    Reads (x.map f) p Q := by
  match x, hx with
  | .ok a, ⟨hp, ha⟩ => exact ⟨hp, hf a ha⟩
  | .error found, hfound => exact hfound

theorem Reads.imp {P' : α → Prop} (hx : x.Reads p P) (h : ∀ a, P a → P' a) : x.Reads p P' := by
  match x, hx with
  | .ok a, ⟨hp, ha⟩ => exact ⟨hp, h a ha⟩
  | .error found, hfound => exact hfound

end Checked

open Checked

inductive Kind where
  | text | optionalText | texts | commitCount
  deriving DecidableEq, Repr

structure Parameter where
  name : String
  kind : Kind
  deriving DecidableEq, Repr

def Check.parameters : Check → List Parameter
  | security => [⟨"code", .text⟩, ⟨"filename", .optionalText⟩, ⟨"language", .optionalText⟩]
  | aiDetection => [⟨"diff", .text⟩, ⟨"commit_count", .commitCount⟩]
  | tests => [⟨"changed_files", .texts⟩, ⟨"diff", .text⟩]
  | complexity => [⟨"code", .text⟩, ⟨"filename", .optionalText⟩]

def textFaults (location : Text) : Json → List Problem
  | .str _ => []
  | _ => [⟨location, .notText⟩]

def itemFaults (location : Text) (index : Nat) (items : List Json) : List Problem :=
  (items.zipIdx index).flatMap fun item =>
    textFaults (location ++ '.' :: Text.ofNat item.2) item.1

def countFaults (location : Text) (v : Json) : List Problem :=
  match readWhole location v with
  | .error problems => problems
  | .ok n => if 1 ≤ n then [] else [⟨location, .tooSmall⟩]

namespace Kind

def faults (location : Text) : Kind → Option Json → List Problem
  | text, none | texts, none => [⟨location, .missing⟩]
  | optionalText, none | commitCount, none => []
  | text, some v => textFaults location v
  | optionalText, some .null => []
  | optionalText, some v => textFaults location v
  | texts, some (.arr items) => itemFaults location 0 items
  | texts, some _ => [⟨location, .notList⟩]
  | commitCount, some v => countFaults location v

end Kind

def Parameter.faults (args : Arguments) (p : Parameter) : List Problem :=
  p.kind.faults p.name.toList (argument? args p.name)

def unexpected (args : Arguments) (names : List String) : List Problem :=
  (args.filter fun a => !(names.map String.toList).contains a.1).map fun a => ⟨a.1, .unexpected⟩

/-- Faults of the parameters in their order, and then the arguments that no parameter takes. -/
def Check.problems (c : Check) (args : Arguments) : List Problem :=
  c.parameters.flatMap (·.faults args) ++ unexpected args (c.parameters.map (·.name))

theorem Check.problems_eq_foldr (c : Check) (args : Arguments) :
    c.problems args = c.parameters.foldr (fun p rest => p.faults args ++ rest)
      (unexpected args (c.parameters.map (·.name))) := by
  unfold problems
  generalize unexpected args (c.parameters.map (·.name)) = rest
  induction c.parameters with
  | nil => rfl
  | cons p ps ih => rw [List.flatMap_cons, List.append_assoc, ih, List.foldr_cons]

def IsText (args : Arguments) (name : String) (t : Text) : Prop :=
  argument? args name = some (.str t)

def IsOptionalText (args : Arguments) (name : String) : Option Text → Prop
  | none => argument? args name = none ∨ argument? args name = some .null
  | some t => IsText args name t

def IsTexts (args : Arguments) (name : String) (ts : List Text) : Prop :=
  argument? args name = some (.arr (ts.map .str))

inductive CountsAs : Json → Int → Prop where
  | bool (b : Bool) : CountsAs (.bool b) (if b then 1 else 0)
  | int (n : Int) : CountsAs (.num (.int n)) n
  | double {x : Binary64} {n : Int} : x.toRat = n → -wholeBound < x.toRat →
      x.toRat < wholeBound → CountsAs (.num (.double x)) n
  | str {t : Text} {n : Int} : readInteger t = .ok n → CountsAs (.str t) n

/-- The value counts as no whole number, and the fault says why. -/
inductive NoCount : Json → Fault → Prop where
  | null : NoCount .null .notInteger
  | arr (items : List Json) : NoCount (.arr items) .notInteger
  | obj (members : List (Text × Json)) : NoCount (.obj members) .notInteger
  | fraction {x : Binary64} : (∀ n : Int, x.toRat ≠ n) →
      NoCount (.num (.double x)) .fractionalInteger
  | tooLarge {x : Binary64} {n : Int} : x.toRat = n →
      x.toRat ≤ -wholeBound ∨ wholeBound ≤ x.toRat → NoCount (.num (.double x)) .integerTooLong
  | infinite (negative : Bool) : NoCount (.num (.infinite negative)) .notFinite
  | unreadable {t : Text} : readInteger t = .error .unreadable → NoCount (.str t) .unreadableInteger
  | tooLong {t : Text} : readInteger t = .error .tooLong → NoCount (.str t) .integerTooLong

theorem wholeDouble_of_fraction (location : Text) {x : Binary64} (h : ∀ n : Int, x.toRat ≠ n) :
    wholeDouble location x = .error [⟨location, .fractionalInteger⟩] := by
  have hden : x.toRat.den ≠ 1 := by
    intro hone
    exact h x.toRat.num (Rat.ext rfl (by simpa using hone))
  simp [wholeDouble, hden, fail]

theorem wholeDouble_of_int (location : Text) {x : Binary64} {n : Int} (h : x.toRat = n) :
    wholeDouble location x =
      if -wholeBound < x.toRat ∧ x.toRat < wholeBound then .ok n
      else .error [⟨location, .integerTooLong⟩] := by
  simp [wholeDouble, h, fail]

theorem wholeDouble_cases (location : Text) (x : Binary64) :
    (∃ n, wholeDouble location x = .ok n ∧ CountsAs (.num (.double x)) n) ∨
      ∃ fault, wholeDouble location x = .error [⟨location, fault⟩] ∧
        NoCount (.num (.double x)) fault := by
  by_cases hwhole : ∃ n : Int, x.toRat = n
  case pos =>
    obtain ⟨n, hn⟩ := hwhole
    rw [wholeDouble_of_int location hn]
    split
    case isTrue hbounds => exact .inl ⟨n, rfl, .double hn hbounds.1 hbounds.2⟩
    case isFalse hbounds =>
      rw [Classical.not_and_iff_not_or_not, Rat.not_lt, Rat.not_lt] at hbounds
      exact .inr ⟨_, rfl, .tooLarge hn hbounds⟩
  case neg =>
    have hfraction : ∀ n : Int, x.toRat ≠ n := fun n hn => hwhole ⟨n, hn⟩
    exact .inr ⟨_, wholeDouble_of_fraction location hfraction, .fraction hfraction⟩

theorem readWhole_cases (location : Text) (v : Json) :
    (∃ n, readWhole location v = .ok n ∧ CountsAs v n) ∨
      ∃ fault, readWhole location v = .error [⟨location, fault⟩] ∧ NoCount v fault := by
  cases v with
  | bool b => exact .inl ⟨_, rfl, .bool b⟩
  | num m =>
    cases m with
    | int m => exact .inl ⟨m, rfl, .int m⟩
    | double x => exact wholeDouble_cases location x
    | infinite negative => exact .inr ⟨_, rfl, .infinite negative⟩
  | str t =>
    simp only [readWhole, readWritten]
    split
    case h_1 n hn => exact .inl ⟨n, rfl, .str hn⟩
    case h_2 h => exact .inr ⟨_, rfl, .unreadable h⟩
    case h_3 h => exact .inr ⟨_, rfl, .tooLong h⟩
  | null => exact .inr ⟨_, rfl, .null⟩
  | arr items => exact .inr ⟨_, rfl, .arr items⟩
  | obj members => exact .inr ⟨_, rfl, .obj members⟩

theorem readWhole_of_countsAs {location : Text} {v : Json} {n : Int} (h : CountsAs v n) :
    readWhole location v = .ok n := by
  cases h with
  | bool b => rfl
  | int n => rfl
  | double hwhole hlow hhigh =>
    rw [readWhole, wholeDouble_of_int location hwhole, if_pos ⟨hlow, hhigh⟩]
  | str h => simp [readWhole, readWritten, h]

theorem readWhole_of_noCount {location : Text} {v : Json} {fault : Fault} (h : NoCount v fault) :
    readWhole location v = .error [⟨location, fault⟩] := by
  cases h with
  | null => rfl
  | arr items => rfl
  | obj members => rfl
  | fraction hfraction => exact wholeDouble_of_fraction location hfraction
  | tooLarge hwhole hlarge =>
    rw [readWhole, wholeDouble_of_int location hwhole, if_neg]
    rwa [Classical.not_and_iff_not_or_not, Rat.not_lt, Rat.not_lt]
  | infinite negative => rfl
  | unreadable h => simp [readWhole, readWritten, h, fail]
  | tooLong h => simp [readWhole, readWritten, h, fail]

theorem readWhole_eq_ok_iff {location : Text} {v : Json} {n : Int} :
    readWhole location v = .ok n ↔ CountsAs v n := by
  refine ⟨fun h => ?_, readWhole_of_countsAs⟩
  obtain ⟨m, hm, hcounts⟩ | ⟨fault, hfault, -⟩ := readWhole_cases location v
  · cases hm.symm.trans h
    exact hcounts
  · cases hfault.symm.trans h

theorem readWhole_eq_error_iff {location : Text} {v : Json} {fault : Fault} :
    readWhole location v = .error [⟨location, fault⟩] ↔ NoCount v fault := by
  refine ⟨fun h => ?_, readWhole_of_noCount⟩
  obtain ⟨n, hn, -⟩ | ⟨found, hfound, hnoCount⟩ := readWhole_cases location v
  · cases hn.symm.trans h
  · cases hfound.symm.trans h
    exact hnoCount

theorem countFaults_eq_nil_iff {location : Text} {v : Json} :
    countFaults location v = [] ↔ ∃ n, CountsAs v n ∧ 1 ≤ n := by
  simp only [← @readWhole_eq_ok_iff location, countFaults]
  obtain ⟨n, hn, -⟩ | ⟨fault, hfault, -⟩ := readWhole_cases location v
  · simp [hn]
  · simp [hfault]

theorem countFaults_eq_singleton_iff {location : Text} {v : Json} {fault : Fault} :
    countFaults location v = [⟨location, fault⟩] ↔
      NoCount v fault ∨ fault = .tooSmall ∧ ∃ n, CountsAs v n ∧ n < 1 := by
  simp only [← @readWhole_eq_ok_iff location, ← @readWhole_eq_error_iff location, countFaults]
  obtain ⟨n, hn, -⟩ | ⟨found, hfound, -⟩ := readWhole_cases location v
  · by_cases hone : 1 ≤ n
    · simp [hn, hone]
    · simp [hn, Int.not_le.1 hone, hone, eq_comm]
  · simp [hfound]

/-- What an argument that counts commits says: one, if it is not given. -/
def IsCommitCount (args : Arguments) (name : String) (n : Int) : Prop :=
  match argument? args name with
  | none => n = 1
  | some v => CountsAs v n

def Call.Fits (args : Arguments) : Call → Prop
  | scanSecurity code file => IsText args "code" code ∧ IsOptionalText args "filename" file ∧
    ∃ language, IsOptionalText args "language" language
  | detectAuthorship diff commits =>
    IsText args "diff" diff ∧ IsCommitCount args "commit_count" commits.value
  | mapTests changed diff => IsTexts args "changed_files" changed ∧ IsText args "diff" diff
  | analyzeComplexity code file => IsText args "code" code ∧ IsOptionalText args "filename" file

theorem reads_readText (location : Text) (v : Json) :
    (readText location v).Reads (textFaults location v) fun t => v = .str t := by
  cases v with
  | str t => exact ⟨rfl, rfl⟩
  | _ => exact reads_fail location .notText

theorem reads_readItems (location : Text) (index : Nat) (items : List Json) :
    (readItems location index items).Reads (itemFaults location index items)
      fun ts => items = ts.map .str := by
  induction items generalizing index with
  | nil => exact ⟨rfl, rfl⟩
  | cons v items ih =>
    refine ((reads_readText _ v).both (ih (index + 1))).map fun a ha => ?_
    rw [ha.1, ha.2]
    rfl

section
variable (args : Arguments) (name : String)

theorem reads_requiredText :
    (required readText args name).Reads (Parameter.faults args ⟨name, .text⟩)
      (IsText args name) := by
  unfold required Parameter.faults IsText
  cases argument? args name with
  | none => exact reads_fail name.toList .missing
  | some v => exact (reads_readText name.toList v).imp fun t ht => congrArg some ht

theorem reads_requiredTexts :
    (required readTexts args name).Reads (Parameter.faults args ⟨name, .texts⟩)
      (IsTexts args name) := by
  unfold required Parameter.faults IsTexts
  cases argument? args name with
  | none => exact reads_fail name.toList .missing
  | some v =>
    cases v with
    | arr items =>
      exact (reads_readItems name.toList 0 items).imp fun ts hts => by rw [hts]
    | _ => exact reads_fail name.toList .notList

theorem reads_optionalText :
    (optionalText args name).Reads (Parameter.faults args ⟨name, .optionalText⟩)
      (IsOptionalText args name) := by
  unfold optionalText Parameter.faults IsOptionalText IsText
  cases argument? args name with
  | none => exact ⟨rfl, .inl rfl⟩
  | some v =>
    cases v with
    | null => exact ⟨rfl, .inr rfl⟩
    | str t => exact ⟨rfl, rfl⟩
    | _ => exact reads_fail name.toList .notText

theorem reads_commitCount :
    (commitCount args name).Reads (Parameter.faults args ⟨name, .commitCount⟩)
      (fun n => IsCommitCount args name n.value) := by
  unfold commitCount Parameter.faults IsCommitCount
  cases argument? args name with
  | none => exact ⟨rfl, rfl⟩
  | some v =>
    simp only [readCommitCount, Kind.faults, countFaults]
    obtain ⟨n, h, hcounts⟩ | ⟨fault, h, -⟩ := readWhole_cases name.toList v
    · rw [h]
      by_cases hn : 1 ≤ n
      · simp [hn, Reads, bind, Except.bind, hcounts]
      · simp [hn, Reads, bind, Except.bind, fail]
    · rw [h]
      exact reads_fail name.toList fault

theorem reads_onlyNamed (names : List String) :
    (onlyNamed args names).Reads (unexpected args names) fun _ => True := by
  unfold onlyNamed unexpected
  split
  case h_1 h => exact ⟨by rw [h]; rfl, trivial⟩
  case h_2 h => exact ⟨rfl, by simpa using h⟩

end

/-- All problems are found, and without one the call says what the arguments say. -/
theorem Call.reads_read (c : Check) (args : Arguments) :
    (read c args).Reads (c.problems args) fun call => call.check = c ∧ call.Fits args := by
  -- Each parameter is read together with all that comes after it.
  rw [Check.problems_eq_foldr]
  cases c with
  | security =>
    have hread := (reads_requiredText args "code").both ((reads_optionalText args "filename").both
      ((reads_optionalText args "language").both
        (reads_onlyNamed args ["code", "filename", "language"])))
    exact hread.map fun a ha => ⟨rfl, ha.1, ha.2.1, _, ha.2.2.1⟩
  | aiDetection =>
    have hread := (reads_requiredText args "diff").both
      ((reads_commitCount args "commit_count").both
        (reads_onlyNamed args ["diff", "commit_count"]))
    exact hread.map fun a ha => ⟨rfl, ha.1, ha.2.1⟩
  | tests =>
    have hread := (reads_requiredTexts args "changed_files").both
      ((reads_requiredText args "diff").both
        (reads_onlyNamed args ["changed_files", "diff"]))
    exact hread.map fun a ha => ⟨rfl, ha.1, ha.2.1⟩
  | complexity =>
    have hread := (reads_requiredText args "code").both ((reads_optionalText args "filename").both
      (reads_onlyNamed args ["code", "filename"]))
    exact hread.map fun a ha => ⟨rfl, ha.1, ha.2.1⟩

end PatchReview.Tools
