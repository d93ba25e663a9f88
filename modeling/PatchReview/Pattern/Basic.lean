import PatchReview.Text.Basic
import PatchReview.Text.Word

/-!
Search patterns over text. A pattern read at a cursor has a list of ends in order of preference:
the first end is the one a search takes, the later ones are what it falls back to. Repetition is
over single characters only, so both definitions recurse on the pattern and on the text.
Main statement: `firstEnd?_eq`, the search with early exit finds the first end of the list.
-/

set_option autoImplicit false

namespace PatchReview

structure Cursor where
  offset : Nat
  prev : Option Char
  rest : Text
  deriving DecidableEq, Repr

namespace Cursor

def atStart (t : Text) : Cursor := ⟨0, none, t⟩

def atWordEdge (c : Cursor) : Bool :=
  c.prev.any isWord != c.rest.head?.any isWord

def atLineStart (c : Cursor) : Bool :=
  match c.prev with
  | none => true
  | some x => x == '\n'

/-- A newline that ends the text is not counted as text after the end. -/
def atTextEnd (c : Cursor) : Bool := c.rest == [] || c.rest == ['\n']

end Cursor

inductive Pattern where
  | empty
  | one (accepts : Char → Bool)
  /-- Any number of characters, as many as possible. -/
  | many (accepts : Char → Bool)
  /-- Any number of characters, as few as possible. -/
  | few (accepts : Char → Bool)
  | seq (first second : Pattern)
  /-- The first choice is preferred. -/
  | alt (first second : Pattern)
  | wordEdge
  | textStart
  | lineStart
  | textEnd
  | notAhead (p : Pattern)

namespace Pattern

def manyEnds (accepts : Char → Bool) (n : Nat) (prev : Option Char) : Text → List Cursor
  | [] => [⟨n, prev, []⟩]
  | c :: rest =>
    if accepts c then manyEnds accepts (n + 1) (some c) rest ++ [⟨n, prev, c :: rest⟩]
    else [⟨n, prev, c :: rest⟩]

def fewEnds (accepts : Char → Bool) (n : Nat) (prev : Option Char) : Text → List Cursor
  | [] => [⟨n, prev, []⟩]
  | c :: rest =>
    ⟨n, prev, c :: rest⟩ :: if accepts c then fewEnds accepts (n + 1) (some c) rest else []

def oneEnds (accepts : Char → Bool) (n : Nat) : Text → List Cursor
  | [] => []
  | c :: rest => if accepts c then [⟨n + 1, some c, rest⟩] else []

/-- Cursors at which a match from `c` may end, the preferred ones first. -/
def ends : Pattern → Cursor → List Cursor
  | empty, c => [c]
  | one accepts, c => oneEnds accepts c.offset c.rest
  | many accepts, c => manyEnds accepts c.offset c.prev c.rest
  | few accepts, c => fewEnds accepts c.offset c.prev c.rest
  | seq p q, c => (ends p c).flatMap (ends q)
  | alt p q, c => ends p c ++ ends q c
  | wordEdge, c => if c.atWordEdge then [c] else []
  | textStart, c => if c.prev.isNone then [c] else []
  | lineStart, c => if c.atLineStart then [c] else []
  | textEnd, c => if c.atTextEnd then [c] else []
  | notAhead p, c => if (ends p c).isEmpty then [c] else []

def manyThen {α : Type} (accepts : Char → Bool) (k : Cursor → Option α) (n : Nat)
    (prev : Option Char) : Text → Option α
  | [] => k ⟨n, prev, []⟩
  | c :: rest =>
    if accepts c then (manyThen accepts k (n + 1) (some c) rest).or (k ⟨n, prev, c :: rest⟩)
    else k ⟨n, prev, c :: rest⟩

def fewThen {α : Type} (accepts : Char → Bool) (k : Cursor → Option α) (n : Nat)
    (prev : Option Char) : Text → Option α
  | [] => k ⟨n, prev, []⟩
  | c :: rest =>
    (k ⟨n, prev, c :: rest⟩).or
      (if accepts c then fewThen accepts k (n + 1) (some c) rest else none)

def oneThen {α : Type} (accepts : Char → Bool) (k : Cursor → Option α) (n : Nat) :
    Text → Option α
  | [] => none
  | c :: rest => if accepts c then k ⟨n + 1, some c, rest⟩ else none

/-- The first answer of `k` on an end of the pattern; no end after it is computed. -/
def firstEnd? : Pattern → {α : Type} → Cursor → (Cursor → Option α) → Option α
  | empty, _, c, k => k c
  | one accepts, _, c, k => oneThen accepts k c.offset c.rest
  | many accepts, _, c, k => manyThen accepts k c.offset c.prev c.rest
  | few accepts, _, c, k => fewThen accepts k c.offset c.prev c.rest
  | seq p q, _, c, k => firstEnd? p c fun d => firstEnd? q d k
  | alt p q, _, c, k => (firstEnd? p c k).or (firstEnd? q c k)
  | wordEdge, _, c, k => if c.atWordEdge then k c else none
  | textStart, _, c, k => if c.prev.isNone then k c else none
  | lineStart, _, c, k => if c.atLineStart then k c else none
  | textEnd, _, c, k => if c.atTextEnd then k c else none
  | notAhead p, _, c, k => if (firstEnd? p c fun _ => some ()).isNone then k c else none

theorem oneThen_eq {α : Type} (accepts : Char → Bool) (k : Cursor → Option α) (n : Nat)
    (t : Text) : oneThen accepts k n t = (oneEnds accepts n t).findSome? k := by
  cases t with
  | nil => rfl
  | cons c rest => by_cases h : accepts c <;> simp [oneThen, oneEnds, h]

theorem manyThen_eq {α : Type} (accepts : Char → Bool) (k : Cursor → Option α) (n : Nat)
    (prev : Option Char) (t : Text) :
    manyThen accepts k n prev t = (manyEnds accepts n prev t).findSome? k := by
  induction t generalizing n prev with
  | nil => simp [manyThen, manyEnds]
  | cons c rest ih =>
    by_cases h : accepts c <;> simp [manyThen, manyEnds, h, ih, List.findSome?_append]

theorem fewThen_eq {α : Type} (accepts : Char → Bool) (k : Cursor → Option α) (n : Nat)
    (prev : Option Char) (t : Text) :
    fewThen accepts k n prev t = (fewEnds accepts n prev t).findSome? k := by
  induction t generalizing n prev with
  | nil => simp [fewThen, fewEnds]
  | cons c rest ih =>
    by_cases h : accepts c <;> cases hk : k ⟨n, prev, c :: rest⟩ <;>
      simp [fewThen, fewEnds, h, ih, hk]

theorem findSome?_flatMap {α β γ : Type} (f : β → Option γ) (g : α → List β) (l : List α) :
    (l.flatMap g).findSome? f = l.findSome? fun a => (g a).findSome? f := by
  induction l with
  | nil => rfl
  | cons a l ih =>
    simp only [List.flatMap_cons, List.findSome?_append, ih, List.findSome?_cons]
    cases (g a).findSome? f <;> rfl

theorem firstEnd?_eq (p : Pattern) {α : Type} (c : Cursor) (k : Cursor → Option α) :
    firstEnd? p c k = (ends p c).findSome? k := by
  induction p generalizing α c with
  | empty => simp [firstEnd?, ends]
  | one accepts => exact oneThen_eq accepts k c.offset c.rest
  | many accepts => exact manyThen_eq accepts k c.offset c.prev c.rest
  | few accepts => exact fewThen_eq accepts k c.offset c.prev c.rest
  | seq p q ihp ihq =>
    simp only [firstEnd?, ends, findSome?_flatMap]
    rw [ihp]
    congr 1
    funext d
    exact ihq d k
  | alt p q ihp ihq => simp only [firstEnd?, ends, List.findSome?_append, ihp, ihq]
  | wordEdge => by_cases h : c.atWordEdge <;> simp [firstEnd?, ends, h]
  | textStart => by_cases h : c.prev.isNone <;> simp [firstEnd?, ends, h]
  | lineStart => by_cases h : c.atLineStart <;> simp [firstEnd?, ends, h]
  | textEnd => by_cases h : c.atTextEnd <;> simp [firstEnd?, ends, h]
  | notAhead p ih =>
    simp only [firstEnd?, ends, ih]
    cases h : ends p c with
    | nil => simp
    | cons d ds => simp

/-- One pattern after the other, nested to the right so that a search begins with the first part. -/
def append : Pattern → Pattern → Pattern
  | seq p p', q => seq p (append p' q)
  | p, q => seq p q

instance : Append Pattern := ⟨append⟩

theorem ends_append (p q : Pattern) (c : Cursor) : (p ++ q).ends c = (p.ends c).flatMap q.ends := by
  change (append p q).ends c = _
  induction p generalizing c with
  | seq p p' _ ih =>
    simp only [append, ends, List.flatMap_assoc]
    congr 1
    funext d
    exact ih d
  | _ => rfl

instance : OrOp Pattern := ⟨alt⟩

def ofText : Text → Pattern
  | [] => empty
  | [c] => one (· == c)
  | c :: rest => one (· == c) ++ ofText rest

def lit (s : String) : Pattern := ofText s.toList

def firstOf : List Pattern → Pattern
  | [] => one fun _ => false
  | [p] => p
  | p :: ps => p ||| firstOf ps

def words (l : List String) : Pattern := firstOf (l.map lit)

def optional (p : Pattern) : Pattern := p ||| empty

def exactly (n : Nat) (accepts : Char → Bool) : Pattern :=
  match n with
  | 0 => empty
  | 1 => one accepts
  | n + 1 => one accepts ++ exactly n accepts

def atLeast (n : Nat) (accepts : Char → Bool) : Pattern := exactly n accepts ++ many accepts

def blanks : Pattern := many isBlank

def someBlanks : Pattern := atLeast 1 isBlank

def wordChars : Pattern := atLeast 1 isWord

/-- The rest of a line, or less. -/
def line : Pattern := many (· != '\n')

def among (chars : String) (c : Char) : Bool := chars.toList.contains c

def notAmong (chars : String) (c : Char) : Bool := !among chars c

def quoted (body : Pattern) : Pattern :=
  (lit "'" ++ body ++ lit "'") ||| (lit "\"" ++ body ++ lit "\"")

/-- The small ASCII letter that a character is a form of, or the character itself. -/
def foldCase (c : Char) : Char :=
  if c == '\u017f' then 's'
  else if c == '\u212a' then 'k'
  else if c == '\u0130' || c == '\u0131' then 'i'
  else c.toLower

def acceptsFolded (accepts : Char → Bool) (c : Char) : Bool :=
  accepts (foldCase c) || accepts (foldCase c).toUpper

/-- The pattern with every test of a character blind to case. -/
def caseless : Pattern → Pattern
  | empty => empty
  | one accepts => one (acceptsFolded accepts)
  | many accepts => many (acceptsFolded accepts)
  | few accepts => few (acceptsFolded accepts)
  | seq p q => seq (caseless p) (caseless q)
  | alt p q => alt (caseless p) (caseless q)
  | wordEdge => wordEdge
  | textStart => textStart
  | lineStart => lineStart
  | textEnd => textEnd
  | notAhead p => notAhead (caseless p)

end Pattern

end PatchReview
