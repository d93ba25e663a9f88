import PatchReview.Number.Binary64

/-!
JSON values and how they are written. An object keeps its members in their order. Without an indent
the value stands on one line; with one, each item and member has a line of its own, indented by its
depth. Only quotes, backslashes and control characters are escaped. A whole number of more than 4300
digits cannot be written.
-/

set_option autoImplicit false

namespace PatchReview

-- Powers are those of core in every context.
attribute [local instance (2000)] instPowNat

inductive Number where
  | int (n : Int)
  | double (x : Binary64)
  | infinite (negative : Bool)
  deriving DecidableEq

namespace Number

def isAbove (bound : Rat) : Number → Bool
  | int n => bound < (n : Rat)
  | double x => bound < x.toRat
  | infinite negative => !negative

/-- The number that `digits · 10 ^ exponent` reads as. Far outside the range of the floating-point
numbers only the order of magnitude is looked at. -/
def ofDecimal (negative : Bool) (digits : Nat) (exponent : Int) : Number :=
  let top : Int := (Nat.toDigits 10 digits).length + exponent
  if digits = 0 || top < -330 then double (.zero negative)
  else if 330 < top then infinite negative
  else
    let d : Decimal := ⟨digits, exponent⟩
    match Binary64.ofFraction? negative d.num d.den with
    | some x => double x
    | none => infinite negative

end Number

inductive Json where
  | null
  | bool (b : Bool)
  | num (n : Number)
  | str (t : Text)
  | arr (items : List Json)
  | obj (members : List (Text × Json))

namespace Json

def ofInt (n : Int) : Json := num (.int n)

def ofNat (n : Nat) : Json := num (.int n)

def ofString (s : String) : Json := str s.toList

def texts (l : List Text) : Json := arr (l.map str)

def ofMembers (l : List (String × Json)) : Json := obj (l.map fun m => (m.1.toList, m.2))

def ofPresent (l : List (String × Option Json)) : Json :=
  ofMembers (l.filterMap fun m => m.2.map fun v => (m.1, v))

def member? (name : String) : Json → Option Json
  | obj members => (members.find? (·.1 == name.toList)).map (·.2)
  | _ => none

def hexDigit (n : Nat) : Char := Nat.digitChar n

def escapeChar (c : Char) : Text :=
  if c == '"' then ['\\', '"']
  else if c == '\\' then ['\\', '\\']
  else if c == '\n' then ['\\', 'n']
  else if c == '\r' then ['\\', 'r']
  else if c == '\t' then ['\\', 't']
  else if c == '\x08' then ['\\', 'b']
  else if c == '\x0c' then ['\\', 'f']
  else if c.toNat < 0x20 then
    ['\\', 'u', '0', '0', hexDigit (c.toNat / 16), hexDigit (c.toNat % 16)]
  else [c]

def writeText (t : Text) : Text := '"' :: (t.flatMap escapeChar ++ ['"'])

def writeNumber : Number → Text
  | .int n => Text.ofInt n
  | .double x => x.toText
  | .infinite negative => (if negative then ['-'] else []) ++ "Infinity".toList

/-- What stands before an item at a depth, after the bracket or the comma. -/
def lineStart (indent : Option Nat) (depth : Nat) : Text :=
  match indent with
  | none => []
  | some n => '\n' :: List.replicate (n * depth) ' '

def itemBreak (indent : Option Nat) (depth : Nat) : Text :=
  match indent with
  | none => [',', ' ']
  | some _ => ',' :: lineStart indent depth

mutual

def writeAt (indent : Option Nat) (depth : Nat) : Json → Text
  | .null => "null".toList
  | .bool b => if b then "true".toList else "false".toList
  | .num n => writeNumber n
  | .str t => writeText t
  | .arr [] => ['[', ']']
  | .arr (v :: items) =>
    '[' :: (lineStart indent (depth + 1) ++ writeAt indent (depth + 1) v
      ++ writeItems indent (depth + 1) items ++ lineStart indent depth ++ [']'])
  | .obj [] => ['{', '}']
  | .obj ((k, v) :: members) =>
    '{' :: (lineStart indent (depth + 1) ++ writeText k ++ [':', ' ']
      ++ writeAt indent (depth + 1) v
      ++ writeMembers indent (depth + 1) members ++ lineStart indent depth ++ ['}'])

def writeItems (indent : Option Nat) (depth : Nat) : List Json → Text
  | [] => []
  | v :: items => itemBreak indent depth ++ writeAt indent depth v ++ writeItems indent depth items

def writeMembers (indent : Option Nat) (depth : Nat) : List (Text × Json) → Text
  | [] => []
  | (k, v) :: members =>
    itemBreak indent depth ++ writeText k ++ [':', ' '] ++ writeAt indent depth v
      ++ writeMembers indent depth members

end

def write (indent : Option Nat) (v : Json) : Text := writeAt indent 0 v

def maxIntDigits : Nat := 4300

def intFits (n : Int) : Bool := n.natAbs < 10 ^ maxIntDigits

mutual

def fits : Json → Bool
  | .num (.int n) => intFits n
  | .arr items => allFit items
  | .obj members => membersFit members
  | .null | .bool _ | .num (.double _) | .num (.infinite _) | .str _ => true

def allFit : List Json → Bool
  | [] => true
  | v :: items => fits v && allFit items

def membersFit : List (Text × Json) → Bool
  | [] => true
  | (_, v) :: members => fits v && membersFit members

end

inductive WriteError where
  | intTooLong
  deriving DecidableEq, Repr

def WriteError.message : WriteError → Text
  | intTooLong =>
    "Exceeds the limit (".toList ++ Text.ofNat maxIntDigits
      ++ " digits) for integer string conversion; use sys.set_int_max_str_digits() to increase the limit".toList

def render (indent : Option Nat) (v : Json) : Except WriteError Text :=
  if v.fits then .ok (v.write indent) else .error .intTooLong

end Json

end PatchReview
