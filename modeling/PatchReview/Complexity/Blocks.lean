import PatchReview.Pattern.Scan

/-!
Function-like blocks of a piece of code, their decisions and their nesting. In languages with braces
these are counted wherever they stand, in strings and comments too, and a block ends with the first
line at whose end as many are closed as were opened. In languages with blocks by indentation a
function has its signature, which ends where its parentheses are closed, and after it the lines
indented more than its first line.
-/

set_option autoImplicit false

namespace PatchReview.Complexity

structure Block where
  name : Text
  /-- Number of the first line, counted from one. -/
  startLine : Nat
  lines : List Text
  deriving DecidableEq, Repr

namespace Block

def body (b : Block) : Text := Text.unlines b.lines

def length (b : Block) : Nat := b.lines.length

end Block

/-- The blocks that begin on each line in turn, where `block?` gets the number of a line, the line
and the lines after it. -/
def blocksFrom (block? : Nat → Text → List Text → Option Block) (number : Nat) :
    List Text → List Block
  | [] => []
  | l :: rest => (block? number l rest).toList ++ blocksFrom block? (number + 1) rest

open Pattern in
def asyncWord : Pattern := optional (lit "async" ++ someBlanks)

end PatchReview.Complexity

namespace PatchReview.Complexity.Brace

-- Sums start at the zero of core in every context.
attribute [local instance (2000)] Zero.ofOfNat0

open Pattern

def openParen : Pattern := blanks ++ lit "("

def parameters : Pattern := openParen ++ many (· != ')') ++ lit ")"

def functionShape : NamedShape where
  lead := asyncWord ++ lit "function" ++ someBlanks
  trail := openParen

def arrowShape : NamedShape where
  lead := words ["const", "let", "var"] ++ someBlanks
  trail := blanks ++ lit "=" ++ blanks ++ optional (lit "async" ++ blanks) ++ lit "("
    ++ many (· != ')') ++ lit ")" ++ blanks ++ lit "=>"

def methodShape : NamedShape where
  lead := blanks ++ asyncWord
  trail := parameters ++ blanks ++ lit "\x7b"

/-- Words that look like a method's name before a condition. -/
def controlWords : List Text := ["if", "for", "while", "switch", "catch"].map String.toList

def methodName? (line : Text) : Option Text :=
  (methodShape.nameAtStart? line).filter (!controlWords.contains ·)

/-- The name that a line declares: of a function, else of an arrow function, else of a method. -/
def declarationName? (line : Text) : Option Text :=
  (functionShape.name? line).or ((arrowShape.name? line).or (methodName? line))

/-- Lines up to the first at whose end the depth is zero, or all lines. -/
def closedRun (depth : Int) : List Text → List Text
  | [] => []
  | l :: rest =>
    let after := depth + Text.surplus '{' '}' l
    if after = 0 then [l] else l :: closedRun after rest

def block? (number : Nat) (line : Text) (rest : List Text) : Option Block :=
  if line.contains '{' then
    (declarationName? line).map fun name => ⟨name, number, closedRun 0 (line :: rest)⟩
  else none

def blocks (code : Text) : List Block := blocksFrom block? 1 (Text.lines code)

/-- Branches, loops, cases and operators with a choice. An `else if` counts twice. -/
def decisions : List Pattern := [
  wordEdge ++ lit "if" ++ openParen,
  wordEdge ++ lit "else" ++ someBlanks ++ lit "if" ++ openParen,
  wordEdge ++ lit "for" ++ openParen,
  wordEdge ++ lit "while" ++ openParen,
  wordEdge ++ lit "case" ++ someBlanks,
  wordEdge ++ lit "catch" ++ openParen,
  lit "?" ++ blanks ++ one (· != ':'),
  lit "&&",
  lit "||",
  lit "??"]

def cyclomatic (body : Text) : Nat := 1 + (decisions.map (·.count body)).sum

def controlOpening : Pattern :=
  wordEdge ++ words ["if", "for", "while", "switch", "try"] ++ openParen

def elseOpening : Pattern := wordEdge ++ lit "else" ++ blanks ++ lit "\x7b"

inductive Turn where
  | opens | closes | stays
  deriving DecidableEq, Repr

def turn (line : Text) : Turn :=
  if controlOpening.occurs line && line.contains '{' then .opens
  else if elseOpening.occurs line then .stays
  else if Text.trim line == ['}'] then .closes
  else .stays

/-- The greatest depth reached from a depth on; it never falls below zero. -/
def deepest (depth : Nat) : List Text → Nat
  | [] => 0
  | l :: rest =>
    match turn l with
    | .opens => max (depth + 1) (deepest (depth + 1) rest)
    | .closes => deepest (depth - 1) rest
    | .stays => deepest depth rest

def nesting (body : Text) : Nat := deepest 0 (Text.lines body)

end PatchReview.Complexity.Brace

namespace PatchReview.Complexity.Indent

open Pattern

def defShape : NamedShape where
  lead := blanks ++ asyncWord ++ lit "def" ++ someBlanks
  trail := blanks ++ lit "("

def splitSignature (openBefore : Int) : List Text → List Text × List Text
  | [] => ([], [])
  | l :: rest =>
    let openAfter := openBefore + Text.surplus '(' ')' l
    if openAfter ≤ 0 then ([l], rest)
    else
      let (signature, rest) := splitSignature openAfter rest
      (l :: signature, rest)

theorem splitSignature_append (openBefore : Int) (ls : List Text) :
    (splitSignature openBefore ls).1 ++ (splitSignature openBefore ls).2 = ls := by
  induction ls generalizing openBefore with
  | nil => rfl
  | cons l ls ih =>
    rw [splitSignature]
    split
    · rfl
    · exact congrArg (l :: ·) (ih _)

/-- Lines up to the last one indented more than `margin` before a line that is not. Blank lines
count only between such lines. -/
def indentedRun (margin : Nat) : List Text → List Text
  | [] => []
  | l :: rest =>
    if Text.isBlankLine l then
      match indentedRun margin rest with
      | [] => []
      | run => l :: run
    else if Text.indentation l ≤ margin then []
    else l :: indentedRun margin rest

def blockLines (line : Text) (rest : List Text) : List Text :=
  let (signature, rest) := splitSignature 0 (line :: rest)
  signature ++ indentedRun (Text.indentation line) rest

def block? (number : Nat) (line : Text) (rest : List Text) : Option Block :=
  (defShape.nameAtStart? line).map fun name => ⟨name, number, blockLines line rest⟩

def blocks (code : Text) : List Block := blocksFrom block? 1 (Text.lines code)

def decision : Pattern :=
  wordEdge ++ words ["if", "elif", "for", "while", "except", "and", "or"] ++ wordEdge
    ||| lineStart ++ blanks ++ lit "case" ++ wordEdge

def cyclomatic (body : Text) : Nat := 1 + decision.count body

def blockOpening : Pattern :=
  blanks ++ asyncWord
    ++ words ["if", "elif", "else", "for", "while", "with", "try", "except", "finally", "match"]
    ++ wordEdge ++ line ++ lit ":" ++ blanks ++ optional (lit "#" ++ line) ++ textEnd

def opensBlock (line : Text) : Bool := blockOpening.matchesStart line

/-- Blank lines and comments have no say in the nesting. -/
def isPassedOver (line : Text) : Bool :=
  let shown := Text.trim line
  shown.isEmpty || shown.head? == some '#'

/-- The greatest number of open blocks. `outer` holds the indentations of the open ones, the
innermost first. -/
def deepest (outer : List Nat) : List Text → Nat
  | [] => 0
  | l :: rest =>
    if isPassedOver l then deepest outer rest
    else
      let margin := Text.indentation l
      let outer := outer.dropWhile (margin ≤ ·)
      if opensBlock l then max (outer.length + 1) (deepest (margin :: outer) rest)
      else deepest outer rest

def nesting (body : Text) : Nat := deepest [] (Text.lines body)

end PatchReview.Complexity.Indent
