import PatchReview.Pattern.Basic

set_option autoImplicit false

namespace PatchReview

/-- A match, by the offset of its first character and its length. -/
structure Span where
  start : Nat
  length : Nat
  deriving DecidableEq, Repr

namespace Pattern

def firstEndAt? (p : Pattern) (c : Cursor) : Option Cursor := p.firstEnd? c some

theorem firstEndAt?_eq_head? (p : Pattern) (c : Cursor) : p.firstEndAt? c = (p.ends c).head? := by
  rw [firstEndAt?, firstEnd?_eq]
  cases p.ends c <;> rfl

def matchLength? (p : Pattern) (c : Cursor) : Option Nat :=
  (p.firstEndAt? c).map fun d => d.offset - c.offset

def matchesAt (p : Pattern) (c : Cursor) : Bool := (p.firstEndAt? c).isSome

def matchesStart (p : Pattern) (t : Text) : Bool := p.matchesAt (.atStart t)

def occursFrom (p : Pattern) (n : Nat) (prev : Option Char) : Text → Bool
  | [] => p.matchesAt ⟨n, prev, []⟩
  | c :: rest => p.matchesAt ⟨n, prev, c :: rest⟩ || occursFrom p (n + 1) (some c) rest

def occurs (p : Pattern) (t : Text) : Bool := occursFrom p 0 none t

/-- Matches from offset `n` on, when the next `taken` characters belong to a match already. -/
def spansFrom (p : Pattern) (n : Nat) (prev : Option Char) (taken : Nat) : Text → List Span
  | [] => []
  | c :: rest =>
    match taken with
    | k + 1 => spansFrom p (n + 1) (some c) k rest
    | 0 =>
      match p.matchLength? ⟨n, prev, c :: rest⟩ with
      | none => spansFrom p (n + 1) (some c) 0 rest
      | some k => ⟨n, k⟩ :: spansFrom p (n + 1) (some c) (k - 1) rest

def spans (p : Pattern) (t : Text) : List Span := spansFrom p 0 none 0 t

def count (p : Pattern) (t : Text) : Nat := (p.spans t).length

end Pattern

/-- A word with what must stand before and after it. -/
structure NamedShape where
  lead : Pattern
  trail : Pattern

namespace NamedShape

def passed (c d : Cursor) : Text := c.rest.take (d.offset - c.offset)

def nameAt? (s : NamedShape) (c : Cursor) : Option Text :=
  s.lead.firstEnd? c fun d =>
    (Pattern.seq (.one isWord) (.many isWord)).firstEnd? d fun e =>
      s.trail.firstEnd? e fun _ => some (passed d e)

def nameFrom? (s : NamedShape) (n : Nat) (prev : Option Char) : Text → Option Text
  | [] => s.nameAt? ⟨n, prev, []⟩
  | c :: rest => (s.nameAt? ⟨n, prev, c :: rest⟩).or (nameFrom? s (n + 1) (some c) rest)

def name? (s : NamedShape) (t : Text) : Option Text := s.nameFrom? 0 none t

def nameAtStart? (s : NamedShape) (t : Text) : Option Text := s.nameAt? (.atStart t)

end NamedShape

end PatchReview
