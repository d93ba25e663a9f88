import PatchReview.Json.Basic

set_option autoImplicit false

namespace PatchReview

namespace Json

def isGap (c : Char) : Bool := c == ' ' || c == '\n' || c == '\r' || c == '\t'

def skipGaps (t : Text) : Text := t.dropWhile isGap

def hexValue? (c : Char) : Option Nat :=
  if c.isDigit then some (c.toNat - 48)
  else if 'a' ≤ c && c ≤ 'f' then some (c.toNat - 87)
  else if 'A' ≤ c && c ≤ 'F' then some (c.toNat - 55)
  else none

def hex4? (a b c d : Char) : Option Nat := do
  some (((← hexValue? a) * 16 + (← hexValue? b)) * 256 + ((← hexValue? c) * 16 + (← hexValue? d)))

def isHighHalf (n : Nat) : Bool := 0xd800 ≤ n && n < 0xdc00

def isLowHalf (n : Nat) : Bool := 0xdc00 ≤ n && n < 0xe000

def unescape? : Char → Option Char
  | '"' => some '"'
  | '\\' => some '\\'
  | '/' => some '/'
  | 'n' => some '\n'
  | 'r' => some '\r'
  | 't' => some '\t'
  | 'b' => some '\x08'
  | 'f' => some '\x0c'
  | _ => none

def readText : Text → Option (Text × Text)
  | [] => none
  | '"' :: rest => some ([], rest)
  | '\\' :: 'u' :: a :: b :: c :: d :: '\\' :: 'u' :: e :: f :: g :: h :: rest => do
    let high ← hex4? a b c d
    if isHighHalf high then
      let low ← hex4? e f g h
      if isLowHalf low then
        let (t, rest) ← readText rest
        some (Char.ofNat (0x10000 + (high - 0xd800) * 0x400 + (low - 0xdc00)) :: t, rest)
      else none
    else if isLowHalf high then none
    else
      let (t, rest) ← readText ('\\' :: 'u' :: e :: f :: g :: h :: rest)
      some (Char.ofNat high :: t, rest)
  | '\\' :: 'u' :: a :: b :: c :: d :: rest => do
    let n ← hex4? a b c d
    if isHighHalf n || isLowHalf n then none
    else
      let (t, rest) ← readText rest
      some (Char.ofNat n :: t, rest)
  | '\\' :: c :: rest => do
    let x ← unescape? c
    let (t, rest) ← readText rest
    some (x :: t, rest)
  | c :: rest =>
    if c == '\\' || c.toNat < 0x20 then none
    else do
      let (t, rest) ← readText rest
      some (c :: t, rest)

def takeDigits (t : Text) : Text × Text := (t.takeWhile Char.isDigit, t.dropWhile Char.isDigit)

def readFraction : Text → Option (Option Text × Text)
  | '.' :: rest =>
    let (ds, rest) := takeDigits rest
    if ds.isEmpty then none else some (some ds, rest)
  | t => some (none, t)

def readPower (negative : Bool) (t : Text) : Option (Option Int × Text) :=
  let (ds, rest) := takeDigits t
  let n : Int := Nat.ofDigitChars 10 ds 0
  if ds.isEmpty then none else some (some (if negative then -n else n), rest)

def readExponent : Text → Option (Option Int × Text)
  | [] => some (none, [])
  | c :: rest =>
    if c == 'e' || c == 'E' then
      match rest with
      | '-' :: rest => readPower true rest
      | '+' :: rest => readPower false rest
      | rest => readPower false rest
    else some (none, c :: rest)

/-- A whole part without leading zeros, then a fraction and an exponent if they are there. -/
def readUnsigned (negative : Bool) (t : Text) : Option (Number × Text) := do
  let (whole, rest) := takeDigits t
  if whole.isEmpty || (1 < whole.length && whole.head? == some '0') then none
  let (fraction, rest) ← readFraction rest
  let (power, rest) ← readExponent rest
  match fraction, power with
  | none, none =>
    let n : Int := Nat.ofDigitChars 10 whole 0
    some (.int (if negative then -n else n), rest)
  | _, _ =>
    let tail := fraction.getD []
    let digits := Nat.ofDigitChars 10 (whole ++ tail) 0
    some (.ofDecimal negative digits (power.getD 0 - tail.length), rest)

def readNumber : Text → Option (Number × Text)
  | '-' :: rest => readUnsigned true rest
  | t => readUnsigned false t

def readWord (word : String) (v : Json) (t : Text) : Option (Json × Text) :=
  if word.toList.isPrefixOf t then some (v, t.drop word.length) else none

mutual

/-- One value and what follows it. `fuel` bounds the number of steps. -/
def readValue (fuel : Nat) (t : Text) : Option (Json × Text) :=
  match fuel with
  | 0 => none
  | fuel + 1 =>
    match skipGaps t with
    | [] => none
    | '"' :: rest => do
      let (s, rest) ← readText rest
      some (.str s, rest)
    | '[' :: rest =>
      match skipGaps rest with
      | ']' :: rest => some (.arr [], rest)
      | rest => do
        let (items, rest) ← readItems fuel rest
        some (.arr items, rest)
    | '{' :: rest =>
      match skipGaps rest with
      | '}' :: rest => some (.obj [], rest)
      | rest => do
        let (members, rest) ← readMembers fuel rest
        some (.obj members, rest)
    | 'n' :: rest => readWord "null" .null ('n' :: rest)
    | 't' :: rest => readWord "true" (.bool true) ('t' :: rest)
    | 'f' :: rest => readWord "false" (.bool false) ('f' :: rest)
    | t => do
      let (n, rest) ← readNumber t
      some (.num n, rest)

def readItems (fuel : Nat) (t : Text) : Option (List Json × Text) :=
  match fuel with
  | 0 => none
  | fuel + 1 => do
    let (v, rest) ← readValue fuel t
    match skipGaps rest with
    | ']' :: rest => some ([v], rest)
    | ',' :: rest => do
      let (items, rest) ← readItems fuel rest
      some (v :: items, rest)
    | _ => none

def readMembers (fuel : Nat) (t : Text) : Option (List (Text × Json) × Text) :=
  match fuel with
  | 0 => none
  | fuel + 1 =>
    match skipGaps t with
    | '"' :: rest => do
      let (k, rest) ← readText rest
      match skipGaps rest with
      | ':' :: rest => do
        let (v, rest) ← readValue fuel rest
        match skipGaps rest with
        | '}' :: rest => some ([(k, v)], rest)
        | ',' :: rest => do
          let (members, rest) ← readMembers fuel rest
          some ((k, v) :: members, rest)
        | _ => none
      | _ => none
    | _ => none

end

/-- The value that the whole text writes. A value takes no more steps than twice its text. -/
def read? (t : Text) : Option Json := do
  let (v, rest) ← readValue (2 * t.length + 1) t
  if (skipGaps rest).isEmpty then some v else none

end Json

end PatchReview
