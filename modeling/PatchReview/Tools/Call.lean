import PatchReview.Distinct
import PatchReview.Json.Basic
import PatchReview.Text.Lowercase

/-!
The checks, the tools that they offer, and what the arguments of a call say. Whole numbers may be
written as texts. The plain form is a run of digits, which a minus may stand before. Any other text
is tidied first: blanks around it, a plus, zeros at the front, a fraction of zeros and single
underscores between digits go. At most 4300 characters are read as a number, not counting zeros at
the front.
-/

set_option autoImplicit false

namespace PatchReview.Tools

inductive Check where
  | security | aiDetection | tests | complexity
  deriving DecidableEq, Repr

namespace Check

def name : Check → String
  | security => "security"
  | aiDetection => "ai-detection"
  | tests => "tests"
  | complexity => "complexity"

def toolName : Check → String
  | security => "security_scan"
  | aiDetection => "ai_slop_detector"
  | tests => "test_coverage_check"
  | complexity => "complexity_analyzer"

def all : List Check := [security, aiDetection, tests, complexity]

def byToolName : List Check := [aiDetection, complexity, security, tests]

/-- Names are read without regard to case and to blanks around them. -/
def ofText? (t : Text) : Option Check :=
  let name := Text.lower (Text.trim t)
  all.find? fun c => c.name.toList == name

def ofToolName? (t : Text) : Option Check := all.find? fun c => c.toolName.toList == t

theorem ofToolName?_toolName (c : Check) : ofToolName? c.toolName.toList = some c := by
  cases c <;> decide

end Check

/-- The checks that are asked for, each once. Without a list all checks are on, and names of no
check are passed over. -/
def normalizeChecks : Option (List Text) → List Check
  | none => Check.all
  | some names => distinct (names.filterMap Check.ofText?)

inductive IntegerError where
  | unreadable
  | tooLong
  deriving DecidableEq, Repr

/-- A sign counts as a character. -/
def maxIntegerChars : Nat := 4300

/-- Digits behind a minus or not. A number that is too long is so whatever follows its digits. -/
def plainInteger (t : Text) : Except IntegerError Int :=
  let negative := t.head? == some '-'
  let unsigned := if negative then t.drop 1 else t
  let digits := unsigned.takeWhile Char.isDigit
  let counted := (digits.dropWhile (· == '0')).length + if negative then 1 else 0
  if digits.isEmpty then .error .unreadable
  else if maxIntegerChars < counted then .error .tooLong
  else if digits.length == unsigned.length then
    let n : Int := Nat.ofDigitChars 10 digits 0
    .ok (if negative then -n else n)
  else .error .unreadable

/-- Blanks that may stand around a number. The four information separators may not. -/
def isOuterBlank (c : Char) : Bool := isBlank c && !(0x1c ≤ c.toNat && c.toNat ≤ 0x1f)

def trimOuter (t : Text) : Text :=
  ((t.dropWhile isOuterBlank).reverse.dropWhile isOuterBlank).reverse

def dropPlus? : Text → Option Text
  | '+' :: '-' :: _ => none
  | '+' :: rest => some rest
  | t => some t

/-- The text from the first other digit or from a minus on, or from the zero before a point on.
Underscores may stand among the zeros; `last` is the character passed last. -/
def dropZerosFrom? (last : Char) : Text → Option Text
  | [] => some [last]
  | c :: rest =>
    if c == '0' || c == '_' then dropZerosFrom? c rest
    else if c.isDigit || c == '-' then some (c :: rest)
    else if c == '.' then some (last :: c :: rest)
    else none

def dropZeros? : Text → Option Text
  | [] => none
  | c :: rest =>
    if c == '0' then dropZerosFrom? c rest
    else if c.isDigit || c == '-' then some (c :: rest)
    else none

/-- The text before the first point, if at least one zero and nothing else follows it. -/
def dropFraction (t : Text) : Text :=
  match t.dropWhile (· != '.') with
  | _ :: zeros =>
    if !zeros.isEmpty && zeros.all (· == '0') then t.takeWhile (· != '.') else t
  | [] => t

def hasDoubleUnderscore (t : Text) : Bool := Text.occursIn ['_', '_'] t

/-- The text without underscores, unless one of them is not between two other characters. -/
def dropUnderscores (t : Text) : Text :=
  if t.head? == some '_' || t.getLast? == some '_' || hasDoubleUnderscore t then t
  else t.filter (· != '_')

def tidyInteger? (t : Text) : Option Text := do
  let t ← dropZeros? (← dropPlus? (trimOuter t))
  some (dropUnderscores (dropFraction t))

/-- Only a text that has not the plain form is tidied. -/
def readInteger (t : Text) : Except IntegerError Int :=
  match plainInteger t with
  | .error .unreadable =>
    match tidyInteger? t with
    | some tidy => plainInteger tidy
    | none => .error .unreadable
  | result => result

-- Powers are those of core in every context.
attribute [local instance (2000)] Rat.instPowNat

inductive Fault where
  | missing | unexpected | notText | notList | notInteger | unreadableInteger
  | integerTooLong | fractionalInteger | notFinite | tooSmall
  deriving DecidableEq, Repr

def Fault.name : Fault → String
  | missing => "missing_argument"
  | unexpected => "unexpected_keyword_argument"
  | notText => "string_type"
  | notList => "list_type"
  | notInteger => "int_type"
  | unreadableInteger => "int_parsing"
  | integerTooLong => "int_parsing_size"
  | fractionalInteger => "int_from_float"
  | notFinite => "finite_number"
  | tooSmall => "greater_than_equal"

structure Problem where
  location : Text
  fault : Fault
  deriving DecidableEq, Repr

abbrev Checked (α : Type) := Except (List Problem) α

namespace Checked

def fail {α : Type} (location : Text) (fault : Fault) : Checked α := .error [⟨location, fault⟩]

/-- Problems of both parts, the first part's first. -/
def both {α β : Type} : Checked α → Checked β → Checked (α × β)
  | .ok a, .ok b => .ok (a, b)
  | .ok _, .error q => .error q
  | .error p, .ok _ => .error p
  | .error p, .error q => .error (p ++ q)

end Checked

abbrev Arguments := List (Text × Json)

def argument? (args : Arguments) (name : String) : Option Json :=
  (args.find? (·.1 == name.toList)).map (·.2)

def readText (location : Text) : Json → Checked Text
  | .str t => .ok t
  | _ => .fail location .notText

def required {α : Type} (read : Text → Json → Checked α) (args : Arguments) (name : String) :
    Checked α :=
  match argument? args name with
  | none => .fail name.toList .missing
  | some v => read name.toList v

def optionalText (args : Arguments) (name : String) : Checked (Option Text) :=
  match argument? args name with
  | none | some .null => .ok none
  | some v => (readText name.toList v).map some

def readItems (location : Text) (index : Nat) : List Json → Checked (List Text)
  | [] => .ok []
  | v :: rest =>
    ((readText (location ++ '.' :: Text.ofNat index) v).both
      (readItems location (index + 1) rest)).map fun p => p.1 :: p.2

def readTexts (location : Text) : Json → Checked (List Text)
  | .arr items => readItems location 0 items
  | _ => .fail location .notList

/-- Floating-point numbers count as whole numbers strictly between these bounds. -/
def wholeBound : Rat := 2 ^ (63 : Nat)

def wholeDouble (location : Text) (x : Binary64) : Checked Int :=
  let q := x.toRat
  if q.den != 1 then .fail location .fractionalInteger
  else if -wholeBound < q && q < wholeBound then .ok q.num
  else .fail location .integerTooLong

def readWritten (location : Text) (t : Text) : Checked Int :=
  match readInteger t with
  | .ok n => .ok n
  | .error .unreadable => .fail location .unreadableInteger
  | .error .tooLong => .fail location .integerTooLong

/-- Truth values count as one and zero, and a text as the number it writes. -/
def readWhole (location : Text) : Json → Checked Int
  | .bool b => .ok (if b then 1 else 0)
  | .num (.int n) => .ok n
  | .num (.double x) => wholeDouble location x
  | .num (.infinite _) => .fail location .notFinite
  | .str t => readWritten location t
  | .null | .arr _ | .obj _ => .fail location .notInteger

structure CommitCount where
  value : Int
  one_le : 1 ≤ value
  deriving DecidableEq, Repr

def readCommitCount (location : Text) (v : Json) : Checked CommitCount := do
  let n ← readWhole location v
  if h : 1 ≤ n then .ok ⟨n, h⟩ else .fail location .tooSmall

def commitCount (args : Arguments) (name : String) : Checked CommitCount :=
  match argument? args name with
  | none => .ok ⟨1, by decide⟩
  | some v => readCommitCount name.toList v

def onlyNamed (args : Arguments) (names : List String) : Checked Unit :=
  match args.filter fun a => !(names.map String.toList).contains a.1 with
  | [] => .ok ()
  | extra => .error (extra.map fun a => ⟨a.1, .unexpected⟩)

inductive Call where
  | scanSecurity (code : Text) (file : Option Text)
  | detectAuthorship (diff : Text) (commits : CommitCount)
  | mapTests (changed : List Text) (diff : Text)
  | analyzeComplexity (code : Text) (file : Option Text)
  deriving DecidableEq, Repr

namespace Call

def check : Call → Check
  | scanSecurity .. => .security
  | detectAuthorship .. => .aiDetection
  | mapTests .. => .tests
  | analyzeComplexity .. => .complexity

/-- A security scan takes the language of the code too, which changes nothing. -/
def read (c : Check) (args : Arguments) : Checked Call :=
  match c with
  | .security =>
    ((required readText args "code").both ((optionalText args "filename").both
      ((optionalText args "language").both
        (onlyNamed args ["code", "filename", "language"])))).map
      fun (code, file, _) => .scanSecurity code file
  | .aiDetection =>
    ((required readText args "diff").both ((commitCount args "commit_count").both
      (onlyNamed args ["diff", "commit_count"]))).map
      fun (diff, commits, _) => .detectAuthorship diff commits
  | .tests =>
    ((required readTexts args "changed_files").both ((required readText args "diff").both
      (onlyNamed args ["changed_files", "diff"]))).map
      fun (changed, diff, _) => .mapTests changed diff
  | .complexity =>
    ((required readText args "code").both ((optionalText args "filename").both
      (onlyNamed args ["code", "filename"]))).map
      fun (code, file, _) => .analyzeComplexity code file

end Call

end PatchReview.Tools
