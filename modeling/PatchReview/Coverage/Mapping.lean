import PatchReview.Diff.FileDiff
import PatchReview.Distinct
import PatchReview.Json.Basic
import PatchReview.Pattern.Scan

set_option autoImplicit false

namespace PatchReview.Coverage

section Paths

open Pattern

def scriptExtension : Pattern := one (among "jt") ++ lit "s"

def sourceExtension : Pattern :=
  firstOf [scriptExtension ++ optional (lit "x"), lit "py", lit "go", lit "rs", lit "rb",
    lit "java", lit "cs", lit "cpp", lit "c"]

def nameStart : Pattern := textStart ||| lit "/"

def extensionEnd : Pattern := lit "." ++ sourceExtension ++ textEnd

def testPatterns : List Pattern := [
  words [".test", ".spec"] ++ extensionEnd,
  lit "_test" ++ extensionEnd,
  nameStart ++ lit "__tests__/",
  nameStart ++ lit "test_" ++ many (· != '/') ++ lit ".py" ++ textEnd]

def excludedPatterns : List Pattern := [
  lit ".config." ++ scriptExtension ++ textEnd,
  lit ".d.ts" ++ textEnd,
  nameStart ++ lit "type" ++ optional (lit "s") ++ lit "." ++ scriptExtension ++ textEnd,
  nameStart ++ lit "index." ++ scriptExtension ++ optional (lit "x") ++ textEnd,
  lit "package.json" ++ textEnd,
  lit "tsconfig.json" ++ textEnd,
  lit ".lock" ++ textEnd,
  lit ".md" ++ textEnd,
  lit ".y" ++ optional (lit "a") ++ lit "ml" ++ textEnd]

def isTestFile (path : Text) : Bool := testPatterns.any (·.occurs path)

def isSourceFile (path : Text) : Bool :=
  !isTestFile path && extensionEnd.occurs path && !excludedPatterns.any (·.occurs path)

/-- Paths of the tests of a source with the given base name, which stands for itself. -/
def sameNamePatterns (name : Text) : List Pattern := [
  nameStart ++ ofText name ++ words [".test", ".spec", "_test"] ++ extensionEnd,
  nameStart ++ lit "test_" ++ ofText name ++ extensionEnd,
  nameStart ++ lit "__tests__/" ++ optional (line ++ lit "/") ++ ofText name ++ extensionEnd]

def isSameNameTest (name path : Text) : Bool := (sameNamePatterns name).any (·.occurs path)

end Paths

structure Report where
  sourceFiles : List Text
  covered : List Text
  uncovered : List Text
  newTests : List Text
  /-- More uncovered files than this are an alarm. -/
  alarmThreshold : Int
  deriving DecidableEq, Repr

def defaultAlarmThreshold : Int := 5

namespace Report

def headline (r : Report) : Text :=
  let n := r.uncovered.length
  let files := Text.ofNat n ++ " file".toList ++ pluralEnding n
  if n = 0 && !r.sourceFiles.isEmpty then "tests looking solid 💪".toList
  else if !r.newTests.isEmpty && 0 < n then
    "tests added, but ".toList ++ files ++ " still uncovered".toList
  else if r.alarmThreshold < n then
    "we need to talk about tests... ".toList ++ Text.ofNat n
      ++ " files with no coverage 😅".toList
  else if 0 < n then files ++ " could use tests".toList
  else "no source files to test".toList

def toJson (r : Report) : Json :=
  .ofMembers [
    ("covered", .texts r.covered),
    ("uncovered", .texts r.uncovered),
    ("newTests", .texts r.newTests),
    ("summary", .ofMembers [
      ("sourceFiles", .ofNat r.sourceFiles.length),
      ("coveredCount", .ofNat r.covered.length),
      ("uncoveredCount", .ofNat r.uncovered.length),
      ("newTestCount", .ofNat r.newTests.length)]),
    ("vibeTranslation", .str r.headline)]

end Report

open PatchReview.Diff

def touchesTest (f : FileDiff) : Bool :=
  f.identity.oldPath.any isTestFile || f.identity.newPath.any isTestFile

def testText (d : Document) : Text := Text.unlines ((d.files.filter touchesTest).map (·.text))

/-- Mentions are sought without regard to case, and inside longer words too, in a text that is
in lower case already. -/
def mentions (lowered name : Text) : Bool :=
  !name.isEmpty && Text.occursIn (Text.lower name) lowered

def hasTest (source : Text) (changed : List Text) (lowered : Text) : Bool :=
  let name := Path.baseName source
  changed.any (isSameNameTest name) || mentions lowered name

def isCovered (source : Text) (changed : List Text) (content : Text) : Bool :=
  hasTest source changed (Text.lower content)

def Report.ofChanges (changed : List Text) (content : Text) : Report :=
  let files := distinct changed
  let sources := files.filter isSourceFile
  let lowered := Text.lower content
  let (covered, uncovered) := sources.partition fun s => hasTest s files lowered
  { sourceFiles := sources
    covered := covered
    uncovered := uncovered
    newTests := files.filter isTestFile
    alarmThreshold := defaultAlarmThreshold }

namespace Report

theorem sourceFiles_ofChanges (changed : List Text) (content : Text) :
    (ofChanges changed content).sourceFiles = (distinct changed).filter isSourceFile := by
  simp [ofChanges, List.partition_eq_filter_filter]

theorem newTests_ofChanges (changed : List Text) (content : Text) :
    (ofChanges changed content).newTests = (distinct changed).filter isTestFile := by
  simp [ofChanges, List.partition_eq_filter_filter]

theorem covered_ofChanges (changed : List Text) (content : Text) :
    (ofChanges changed content).covered =
      (ofChanges changed content).sourceFiles.filter (isCovered · (distinct changed) content) := by
  simp [ofChanges, isCovered, List.partition_eq_filter_filter]

theorem uncovered_ofChanges (changed : List Text) (content : Text) :
    (ofChanges changed content).uncovered =
      (ofChanges changed content).sourceFiles.filter (!isCovered · (distinct changed) content) := by
  simp [ofChanges, isCovered, List.partition_eq_filter_filter, Function.comp_def]

end Report

def mapTests (changed : List Text) (diff : Text) : Except NumberTooLong Report := do
  .ok (.ofChanges changed (testText (← Document.parse diff)))

end PatchReview.Coverage
