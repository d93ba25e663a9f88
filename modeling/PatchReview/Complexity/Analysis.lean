import PatchReview.Complexity.Blocks
import PatchReview.Json.Basic
import PatchReview.Security.Report
import PatchReview.Text.Lowercase

set_option autoImplicit false

namespace PatchReview.Complexity

structure Metrics where
  avgCyclomatic : Number
  maxNesting : Int
  avgLength : Int
  deriving DecidableEq

def Metrics.toJson (m : Metrics) : Json :=
  .ofMembers [
    ("avgCyclomatic", .num m.avgCyclomatic),
    ("maxNesting", .ofInt m.maxNesting),
    ("avgFunctionLength", .ofInt m.avgLength)]

structure Hotspot where
  file : Text
  function : Text
  complexity : Int
  severity : Severity
  line : Option Int
  deriving DecidableEq, Repr

def Hotspot.toJson (h : Hotspot) : Json :=
  .ofPresent [
    ("file", some (.str h.file)),
    ("function", some (.str h.function)),
    ("complexity", some (.ofInt h.complexity)),
    ("severity", some (.ofString h.severity.name)),
    ("line", h.line.map .ofInt)]

structure Report where
  metrics : Metrics
  hotspots : List Hotspot
  functionCount : Int
  deriving DecidableEq

namespace Report

def blank : Report := ⟨⟨.double (.zero false), 0, 0⟩, [], 0⟩

def count (r : Report) (s : Severity) : Nat := r.hotspots.countP (·.severity == s)

def headline (r : Report) : Text :=
  let high := r.count .high
  if r.functionCount = 0 then "no functions to analyze".toList
  else if 0 < high then
    "🌶️ getting spicy - ".toList ++ Text.ofNat high ++ " complex function".toList
      ++ pluralEnding high ++ " detected".toList
  else if 0 < r.count .medium then "couple of tangled bits, but manageable".toList
  else if !r.hotspots.isEmpty then "minor complexity - nothing scary".toList
  else "clean and readable 📖".toList

def toJson (r : Report) : Json :=
  .ofMembers [
    ("metrics", r.metrics.toJson),
    ("hotspots", .arr (r.hotspots.map (·.toJson))),
    ("functionCount", .ofInt r.functionCount),
    ("vibeTranslation", .str r.headline)]

end Report

-- Sums start at the zero of core in every context.
attribute [local instance (2000)] Zero.ofOfNat0

inductive Profile where
  | brace | indent
  deriving DecidableEq, Repr

namespace Profile

def name : Profile → String
  | brace => "brace"
  | indent => "python"

def all : List Profile := [brace, indent]

def ofName? (t : Text) : Option Profile := all.find? fun p => p.name.toList == t

def indentEndings : List Text := [".py", ".pyi"].map String.toList

def ofFile (file : Option Text) : Profile :=
  if file.any fun f => indentEndings.any (·.isSuffixOf (Text.lower f)) then indent else brace

def blocks : Profile → Text → List Block
  | brace => Brace.blocks
  | indent => Indent.blocks

def cyclomatic : Profile → Text → Nat
  | brace => Brace.cyclomatic
  | indent => Indent.cyclomatic

def nesting : Profile → Text → Nat
  | brace => Brace.nesting
  | indent => Indent.nesting

end Profile

/-- Values above any of these make a hotspot. -/
structure Limits where
  cyclomatic : Int
  nesting : Int
  length : Int

def limits : Severity → Limits
  | .high => ⟨15, 5, 100⟩
  | .medium => ⟨10, 4, 50⟩
  | .low => ⟨7, 3, 30⟩

def hotspotSeverity? (cyclomatic nesting length : Int) : Option Severity :=
  Severity.all.find? fun s =>
    let l := limits s
    l.cyclomatic < cyclomatic || l.nesting < nesting || l.length < length

structure Measured where
  block : Block
  cyclomatic : Nat
  nesting : Nat
  deriving DecidableEq, Repr

namespace Measured

def length (m : Measured) : Nat := m.block.length

def hotspot? (file : Text) (m : Measured) : Option Hotspot :=
  (hotspotSeverity? m.cyclomatic m.nesting m.length).map fun s =>
    ⟨file, m.block.name, m.cyclomatic, s, some m.block.startLine⟩

end Measured

def Profile.measure (p : Profile) (code : Text) : List Measured :=
  (p.blocks code).map fun b => ⟨b, p.cyclomatic b.body, p.nesting b.body⟩

/-- Rounding half up to steps of one in `scale`, each step rounded to a floating-point number. -/
def roundHalfUp (scale : Nat) (x : Binary64) : Binary64 :=
  let scaled := Binary64.nearest (x.toRat * scale)
  let raised := Binary64.nearest (scaled.toRat + 1 / 2)
  Binary64.nearest ((raised.toRat.floor : Rat) / scale)

def mean (total count : Nat) : Binary64 := Binary64.nearest ((total : Rat) / count)

def Metrics.ofMeasured (functions : List Measured) : Metrics where
  avgCyclomatic :=
    .double (roundHalfUp 10 (mean (functions.map (·.cyclomatic)).sum functions.length))
  maxNesting := ((functions.map (·.nesting)).foldl max 0 : Nat)
  avgLength := (roundHalfUp 1 (mean (functions.map (·.length)).sum functions.length)).toRat.floor

/-- Hotspots carry the name of the file, if it is there and not empty. -/
def shownFile (file : Option Text) : Text := (file.filter (!·.isEmpty)).getD "unknown".toList

def Report.ofMeasured (file : Option Text) (functions : List Measured) : Report :=
  if functions.isEmpty then .blank
  else ⟨.ofMeasured functions, functions.filterMap (·.hotspot? (shownFile file)), functions.length⟩

def analyze (profile : Profile) (code : Text) (file : Option Text) : Report :=
  .ofMeasured file (profile.measure code)

end PatchReview.Complexity
