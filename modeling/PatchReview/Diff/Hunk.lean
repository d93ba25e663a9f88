import PatchReview.Diff.Lines
import PatchReview.Text.Basic

/-!
Hunks, and their headers `@@ -start,count +start,count @@ trailer`. The counts may be missing and are
then one. The digits may come from any script, and a number has at most 4300 of them.
-/

set_option autoImplicit false

namespace PatchReview.Diff

structure NumberTooLong where
  digits : Nat
  deriving DecidableEq, Repr

def maxDigits : Nat := 4300

def NumberTooLong.message (e : NumberTooLong) : Text :=
  "Exceeds the limit (".toList ++ Text.ofNat maxDigits
    ++ " digits) for integer string conversion: value has ".toList ++ Text.ofNat e.digits
    ++ " digits; use sys.set_int_max_str_digits() to increase the limit".toList

/-- Leading zeros count as digits. -/
def readNumber (digits : Text) : Except NumberTooLong Nat :=
  if digits.length ≤ maxDigits then .ok (Text.digitsValue digits) else .error ⟨digits.length⟩

structure RangeDigits where
  start : Text
  count : Option Text
  deriving DecidableEq, Repr

structure HeaderParts where
  old : RangeDigits
  new : RangeDigits
  trailer : Text
  deriving DecidableEq, Repr

def after? (mark : Char) : Text → Option Text
  | [] => none
  | c :: rest => if c == mark then some rest else none

def afterBlanks? (t : Text) : Option Text :=
  match t with
  | [] => none
  | c :: rest => if isBlank c then some (rest.dropWhile isBlank) else none

def digits? (t : Text) : Option (Text × Text) :=
  let digits := t.takeWhile isDigit
  if digits.isEmpty then none else some (digits, t.dropWhile isDigit)

def range? (sign : Char) (t : Text) : Option (RangeDigits × Text) := do
  let (start, rest) ← digits? (← after? sign t)
  match after? ',' rest with
  | none => some (⟨start, none⟩, rest)
  | some counted =>
    let (count, rest) ← digits? counted
    some (⟨start, some count⟩, rest)

def afterMark? (t : Text) : Option Text := after? '@' t >>= after? '@'

def HeaderParts.ofLine? (line : Text) : Option HeaderParts := do
  let (old, rest) ← range? '-' (← afterBlanks? (← afterMark? line))
  let (new, rest) ← range? '+' (← afterBlanks? rest)
  let trailer ← afterMark? (← afterBlanks? rest)
  some ⟨old, new, trailer⟩

structure HunkHeader where
  oldStart : Nat
  oldCount : Nat
  newStart : Nat
  newCount : Nat
  /-- The trailer, or the whole line when it has no header form. -/
  text : Text
  deriving DecidableEq, Repr

namespace HunkHeader

def readCount : Option Text → Except NumberTooLong Nat
  | none => .ok 1
  | some digits => readNumber digits

/-- The starts are read before the counts, the new start first. -/
def ofParts (p : HeaderParts) : Except NumberTooLong HunkHeader := do
  let newStart ← readNumber p.new.start
  let oldStart ← readNumber p.old.start
  let oldCount ← readCount p.old.count
  let newCount ← readCount p.new.count
  .ok ⟨oldStart, oldCount, newStart, newCount, Text.trim p.trailer⟩

def placeholder (text : Text) : HunkHeader := ⟨0, 0, 0, 0, text⟩

def ofLine (line : Text) : Except NumberTooLong HunkHeader :=
  match HeaderParts.ofLine? line with
  | none => .ok (placeholder line)
  | some parts => ofParts parts

end HunkHeader

inductive ChangeKind where
  | addition | deletion | context
  /-- A note about the file's end that is no line of the file. -/
  | marker
  deriving DecidableEq, Repr

namespace ChangeKind

def name : ChangeKind → String
  | addition => "addition"
  | deletion => "deletion"
  | context => "context"
  | marker => "marker"

def inNewFile : ChangeKind → Bool
  | addition | context => true
  | deletion | marker => false

end ChangeKind

structure Edit where
  kind : ChangeKind
  text : Text
  deriving DecidableEq, Repr

/-- Lines that look like path marks are context here, with their signs. -/
def Edit.ofLine (line : Text) : Edit :=
  if isAddition line then ⟨.addition, line.drop 1⟩
  else if isDeletion line then ⟨.deletion, line.drop 1⟩
  else if startsWith "\\" line then ⟨.marker, line⟩
  else ⟨.context, if startsWith " " line then line.drop 1 else line⟩

structure LineChange where
  kind : ChangeKind
  text : Text
  /-- Number of the line after the change, or of the line that follows a removed one. -/
  lineNumber : Nat
  deriving DecidableEq, Repr

def numbered (next : Nat) : List Edit → List LineChange
  | [] => []
  | e :: rest =>
    ⟨e.kind, e.text, next⟩ :: numbered (if e.kind.inNewFile then next + 1 else next) rest

structure Hunk where
  header : HunkHeader
  changes : List LineChange
  deriving DecidableEq, Repr

namespace Hunk

def additions (h : Hunk) : List LineChange := h.changes.filter (·.kind == .addition)

def deletions (h : Hunk) : List LineChange := h.changes.filter (·.kind == .deletion)

def ofLines (header : HunkHeader) (content : List Text) : Hunk :=
  ⟨header, numbered header.newStart (content.map Edit.ofLine)⟩

def ofSection : List Text → Except NumberTooLong Hunk
  | [] => .ok (ofLines (.placeholder []) [])
  | line :: content => do .ok (ofLines (← HunkHeader.ofLine line) content)

/-- Hunks of the lines from the first change on. Changes above the first header line form a hunk
of their own; lines that name files are no content. -/
def ofBody (body : List Text) : Except NumberTooLong (List Hunk) := do
  let (bare, headed) := sectionsBy (fun line _ => isHunkMark line) (body.filter (!isGitMark ·))
  let hunks ← headed.mapM ofSection
  .ok ((if bare.isEmpty then [] else [ofLines (.placeholder []) bare]) ++ hunks)

end Hunk

end PatchReview.Diff
