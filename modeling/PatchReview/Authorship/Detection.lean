import PatchReview.Diff.FileDiff
import PatchReview.Json.Basic
import PatchReview.Pattern.Scan
import PatchReview.Text.Quoted

/-!
How likely a diff was generated. Marks of generated text are signals, and so are long runs of added
lines that have them. Comments begin with two slashes, in some files also with a number sign. A run
goes on over the border of a hunk and ends at any line that is not added.
-/

set_option autoImplicit false

namespace PatchReview.Authorship

inductive RiskLevel where
  | none | low | medium | high
  deriving DecidableEq, Repr

namespace RiskLevel

def name : RiskLevel → String
  | none => "none"
  | low => "low"
  | medium => "medium"
  | high => "high"

def all : List RiskLevel := [none, low, medium, high]

def ofName? (t : Text) : Option RiskLevel := all.find? fun r => r.name.toList == t

def unknownMessage (t : Text) : Text := Text.quoted t ++ " is not a valid RiskLevel".toList

/-- Bounds are the floating-point numbers next to seven, four and two tenths, and are not in the
level above them. -/
def ofConfidence (c : Number) : RiskLevel :=
  if c.isAbove (Binary64.nearest (7 / 10)).toRat then high
  else if c.isAbove (Binary64.nearest (4 / 10)).toRat then medium
  else if c.isAbove (Binary64.nearest (2 / 10)).toRat then low
  else none

def headline : RiskLevel → String
  | high => "giving 'let Claude cook unsupervised' energy 🤖"
  | medium => "AI ghostwriter detected - might want to double-check 👀"
  | low => "some AI vibes but mostly human"
  | none => "looks hand-crafted ✋"

end RiskLevel

/-- A run of added lines. The end line is the one after the run when its lines are consecutive. -/
structure FlaggedSection where
  file : Text
  startLine : Int
  endLine : Int
  reason : Text
  deriving DecidableEq, Repr

def FlaggedSection.toJson (s : FlaggedSection) : Json :=
  .ofMembers [
    ("file", .str s.file),
    ("startLine", .ofInt s.startLine),
    ("endLine", .ofInt s.endLine),
    ("reason", .str s.reason)]

structure Report where
  confidence : Number
  risk : RiskLevel
  signals : List Text
  sections : List FlaggedSection
  deriving DecidableEq

def Report.toJson (r : Report) : Json :=
  .ofMembers [
    ("confidence", .num r.confidence),
    ("riskLevel", .ofString r.risk.name),
    ("signals", .texts r.signals),
    ("sections", .arr (r.sections.map (·.toJson))),
    ("vibeTranslation", .ofString r.risk.headline)]

section Marks

open Pattern

def commentStart (hashes : Bool) : Pattern :=
  (if hashes then words ["//", "#"] else lit "//") ++ blanks

def explaining (openers : List String) : Pattern := words openers ++ someBlanks ++ wordChars

def verboseComment (hashes : Bool) : Pattern :=
  commentStart hashes
    ++ explaining ["This", "The", "We", "First", "Next", "Finally", "Here", "Now"]

def numberedStep : Pattern := lit "Step " ++ one isDigit

def stepComment (hashes : Bool) : Pattern :=
  caseless (commentStart hashes
    ++ firstOf [numberedStep, lit "First,", lit "Second,", lit "Then,", lit "Finally,", lit "Next,"])

def genericVerb : Pattern :=
  words ["handle", "process", "validate", "check", "get", "set", "update", "create", "delete",
    "fetch", "render"]

def genericName : Pattern :=
  words ["function", "const", "let", "var"] ++ someBlanks ++ genericVerb ++ one Char.isUpper
      ++ wordChars
    ||| lit "def" ++ someBlanks ++ genericVerb ++ lit "_" ++ wordChars

def placeholder : Pattern :=
  caseless (lit "TODO:" ++ blanks ++ words ["implement", "add", "fix", "handle", "update"])

def blockExplanation (hashes : Bool) : Pattern :=
  commentStart hashes ++ explaining ["This", "The", "We"]

def blockStep (hashes : Bool) : Pattern := caseless (commentStart hashes ++ numberedStep)

def functionLike : Pattern :=
  lit "function"
    ||| lit "const" ++ someBlanks ++ wordChars ++ blanks ++ lit "=" ++ blanks
      ++ optional (lit "async" ++ blanks) ++ lit "("
    ||| lit "=>" ++ blanks ++ lit "\x7b"

def docComment : Pattern := lit "/**" ++ few (fun _ => true) ++ lit "*/"

end Marks

open PatchReview.Diff

inductive Reason where
  | explanation | numberedSteps | uniformDocs
  deriving DecidableEq, Repr

def Reason.text : Reason → Text
  | explanation => "verbose explanatory comments".toList
  | numberedSteps => "numbered step comments".toList
  | uniformDocs => "unusually consistent documentation style".toList

def uniformlyDocumented (content : Text) : Bool :=
  let functions := functionLike.count content
  3 < functions && functions ≤ docComment.count content + 1

def blockReasons (content : Text) (hashes : Bool) : List Reason :=
  (if (blockExplanation hashes).occurs content then [.explanation] else [])
    ++ (if (blockStep hashes).occurs content then [.numberedSteps] else [])
    ++ (if uniformlyDocumented content then [.uniformDocs] else [])

def inspectBlock? (lines : List Text) (file : Text) (startLine : Int) : Option FlaggedSection :=
  match blockReasons (Text.unlines lines) (Path.hasHashComments file) with
  | [] => none
  | reasons =>
    some ⟨file, startLine, startLine + lines.length,
      List.intercalate ", ".toList (reasons.map (·.text))⟩

/-- Maximal runs of additions. -/
def additionRuns (changes : List LineChange) : List (List LineChange) :=
  (changes.splitBy fun a b => (a.kind == .addition) == (b.kind == .addition)).filter
    fun run => run.any (·.kind == .addition)

/-- Only longer runs are inspected. -/
def maxPlainRun : Nat := 30

def inspectRun? (file : Text) (run : List LineChange) : Option FlaggedSection :=
  match run with
  | [] => none
  | first :: _ =>
    if maxPlainRun < run.length then inspectBlock? (run.map (·.text)) file first.lineNumber
    else none

def flaggedSections (f : FileDiff) : List FlaggedSection :=
  (additionRuns f.changes).filterMap (inspectRun? f.path)

-- Sums start at the zero of core in every context.
attribute [local instance (2000)] Zero.ofOfNat0

/-- A quotient of whole numbers is above all floating-point numbers. -/
inductive RatioError where
  | tooLarge
  deriving DecidableEq, Repr

def RatioError.message : RatioError → Text
  | tooLarge => "integer division result too large for a float".toList

/-- Additions per deletion. Without deletions more than fifty additions count as ten to one, and
fewer as one to one. -/
def exactRatio (additions deletions : Int) : Rat :=
  if 0 < deletions then (additions : Rat) / deletions else if 50 < additions then 10 else 1

def additionRatio (additions deletions : Int) : Except RatioError Binary64 :=
  match Binary64.nearest? (exactRatio additions deletions) with
  | some x => .ok x
  | none => .error .tooLarge

/-- Rounding to a whole number: half is added to the floating-point number, and the sum rounded
to one again before its fraction is dropped. -/
def roundedRatio (ratio : Binary64) : Int := (Binary64.nearest (ratio.toRat + 1 / 2)).toRat.floor

inductive Signal where
  | additionRatio (ratio : Int)
  | singleCommit (additions : Nat)
  | verboseComments (count : Nat)
  | stepComments (count : Nat)
  | genericNames (count : Nat)
  | placeholders (count : Nat)
  | flaggedSections
  deriving DecidableEq, Repr

namespace Signal

def weight : Signal → Nat
  | additionRatio _ => 25
  | singleCommit _ => 20
  | verboseComments _ => 15
  | stepComments _ => 15
  | genericNames _ => 10
  | placeholders _ => 10
  | flaggedSections => 15

def share (s : Signal) : Binary64 := Binary64.nearest (s.weight / 100)

/-- Flagged sections speak for themselves. -/
def message? : Signal → Option Text
  | additionRatio ratio =>
    some ("High addition ratio (".toList ++ Text.ofInt ratio
      ++ ":1) - typical of AI-generated code".toList)
  | singleCommit n => some (Text.ofNat n ++ " lines added in single commit".toList)
  | verboseComments n => some (Text.ofNat n ++ " verbose explanatory comments".toList)
  | stepComments n => some (Text.ofNat n ++ " step-by-step comments".toList)
  | genericNames n =>
    some (Text.ofNat n ++ " generic function names (handle*, process*, etc.)".toList)
  | placeholders n => some (Text.ofNat n ++ " placeholder TODOs".toList)
  | flaggedSections => none

end Signal

structure Evidence where
  additions : Nat
  deletions : Nat
  commits : Int
  verboseComments : Nat
  stepComments : Nat
  genericNames : Nat
  placeholders : Nat
  sections : List FlaggedSection
  deriving DecidableEq, Repr

/-- Matches in the chunks of all files, each with the comment marks of its file. -/
def countComments (d : Document) (mark : Bool → Pattern) : Nat :=
  (d.files.map fun f => (mark (Path.hasHashComments f.path)).count f.text).sum

namespace Evidence

def ofDocument (d : Document) (diff : Text) (commits : Int) : Evidence where
  additions := d.additionCount
  deletions := d.deletionCount
  commits := commits
  verboseComments := countComments d verboseComment
  stepComments := countComments d stepComment
  genericNames := genericName.count diff
  placeholders := placeholder.count diff
  sections := d.files.flatMap Authorship.flaggedSections

def ratio (e : Evidence) : Binary64 := Binary64.nearest (exactRatio e.additions e.deletions)

def when (fires : Bool) (s : Signal) : List Signal := if fires then [s] else []

def signals (e : Evidence) : List Signal :=
  when (5 < e.ratio.toRat && 100 < e.additions) (.additionRatio (roundedRatio e.ratio))
    ++ when (e.commits == 1 && 200 < e.additions) (.singleCommit e.additions)
    ++ when (5 < e.verboseComments) (.verboseComments e.verboseComments)
    ++ when (2 < e.stepComments) (.stepComments e.stepComments)
    ++ when (5 < e.genericNames) (.genericNames e.genericNames)
    ++ when (2 < e.placeholders) (.placeholders e.placeholders)
    ++ when (!e.sections.isEmpty) .flaggedSections

end Evidence

/-- Sum of the weights, rounded after each addition. -/
def total (signals : List Signal) : Binary64 :=
  signals.foldl (fun sum s => Binary64.nearest (sum.toRat + s.share.toRat)) (.zero false)

def confidence (signals : List Signal) : Number :=
  let rounded := (total signals).toPlaces 2
  let one := Binary64.nearest 1
  .double (if one.toRat < rounded.toRat then one else rounded)

def Report.ofEvidence (e : Evidence) : Report where
  confidence := Authorship.confidence e.signals
  risk := .ofConfidence (Authorship.confidence e.signals)
  signals := e.signals.filterMap (·.message?)
  sections := e.sections

def detect (diff : Text) (commits : Int) : Except NumberTooLong Report := do
  let d ← Document.parse diff
  .ok (.ofEvidence (.ofDocument d diff commits))

end PatchReview.Authorship
