import PatchReview.Text.Basic

/-!
Finite binary floating-point numbers of 64 bits, as a sign, a significand and a power of two, the
rounding of an exact fraction to the nearest of them, and their decimal text: the fewest digits that
read back as the same number, of those the nearest to it. The point is written out from a
ten-thousandth up to below ten to the sixteenth; other numbers have one digit before the point and a
power of ten.
-/

set_option autoImplicit false

namespace PatchReview

-- Powers are those of core in every context.
attribute [local instance (2000)] instPowNat

/-- The whole number nearest to a fraction; a half goes to the even neighbour. -/
def roundHalfEven (num den : Nat) : Nat :=
  let low := num / den
  let twice := 2 * (num % den)
  if twice < den then low
  else if den < twice then low + 1
  else if low % 2 = 0 then low else low + 1

/-- The largest `k` with `2 ^ k ≤ num / den`, for a positive fraction. -/
def floorLog2 (num den : Nat) : Int :=
  let k : Int := (Nat.log2 num : Int) - Nat.log2 den
  if den * 2 ^ k.toNat ≤ num * 2 ^ (-k).toNat then k else k - 1

/-- Values `± significand · 2 ^ exponent`; only those next to zero have a short significand. -/
structure Binary64 where
  negative : Bool
  significand : Nat
  exponent : Int
  significand_lt : significand < 2 ^ (53 : Nat)
  exponent_ge : -1074 ≤ exponent
  exponent_le : exponent ≤ 971
  normal : 2 ^ (52 : Nat) ≤ significand ∨ exponent = -1074
  deriving DecidableEq

namespace Binary64

def zero (negative : Bool) : Binary64 :=
  ⟨negative, 0, -1074, by decide, by decide, by decide, .inr rfl⟩

def largest (negative : Bool) : Binary64 :=
  ⟨negative, 2 ^ (53 : Nat) - 1, 971, by decide, by decide, by decide, .inl (by decide)⟩

def ofParts? (negative : Bool) (significand : Nat) (exponent : Int) : Option Binary64 :=
  if h₁ : significand < 2 ^ (53 : Nat) then
    if h₂ : -1074 ≤ exponent then
      if h₃ : exponent ≤ 971 then
        if h₄ : 2 ^ (52 : Nat) ≤ significand ∨ exponent = -1074 then
          some ⟨negative, significand, exponent, h₁, h₂, h₃, h₄⟩
        else none
      else none
    else none
  else none

def ofFraction? (negative : Bool) (num den : Nat) : Option Binary64 :=
  if num = 0 then some (zero negative)
  else
    let e : Int := max (-1074) (floorLog2 num den - 52)
    let m := roundHalfEven (num * 2 ^ (-e).toNat) (den * 2 ^ e.toNat)
    if m = 2 ^ (53 : Nat) then ofParts? negative (2 ^ (52 : Nat)) (e + 1)
    else ofParts? negative m e

/-- The number nearest to an exact value, ties to the even significand; absent above the largest
number. The result keeps the sign of the value. -/
def nearest? (q : Rat) : Option Binary64 := ofFraction? (q < 0) q.num.natAbs q.den

/-- The nearest number, the largest one standing in for all values above it. -/
def nearest (q : Rat) : Binary64 := (nearest? q).getD (largest (q < 0))

def num (x : Binary64) : Nat := x.significand * 2 ^ x.exponent.toNat

def den (x : Binary64) : Nat := 2 ^ (-x.exponent).toNat

def toRat (x : Binary64) : Rat :=
  mkRat (if x.negative then -(x.num : Int) else x.num) x.den

/-- Rounded to that many decimal places: first the exact value to a decimal, a half to the even
digit, then the decimal to the nearest number. -/
def toPlaces (places : Nat) (x : Binary64) : Binary64 :=
  let digits := roundHalfEven (x.num * 10 ^ places) x.den
  (ofFraction? x.negative digits (10 ^ places)).getD x

end Binary64

structure Decimal where
  digits : Nat
  exponent : Int
  deriving DecidableEq, Repr

namespace Decimal

def num (d : Decimal) : Nat := d.digits * 10 ^ d.exponent.toNat

def den (d : Decimal) : Nat := 10 ^ (-d.exponent).toNat

/-- The same value without zeros at the end of the digits; `fuel` bounds their number. -/
def stripFrom (fuel digits : Nat) (exponent : Int) : Decimal :=
  match fuel with
  | 0 => ⟨digits, exponent⟩
  | fuel + 1 =>
    if digits % 10 = 0 then stripFrom fuel (digits / 10) (exponent + 1) else ⟨digits, exponent⟩

def positional (ds : Text) (point : Int) : Text :=
  if point ≤ 0 then "0.".toList ++ List.replicate (-point).toNat '0' ++ ds
  else
    let whole := point.toNat
    let fraction := ds.drop whole
    ds.take whole ++ List.replicate (whole - ds.length) '0' ++
      '.' :: (if fraction.isEmpty then ['0'] else fraction)

def scientific (ds : Text) (power : Int) : Text :=
  let tail := ds.drop 1
  let size := Nat.toDigits 10 power.natAbs
  ds.take 1 ++ (if tail.isEmpty then [] else '.' :: tail)
    ++ 'e' :: (if power < 0 then '-' else '+')
      :: ((if size.length < 2 then ['0'] else []) ++ size)

def toText (d : Decimal) : Text :=
  let ds := Nat.toDigits 10 d.digits
  let point : Int := ds.length + d.exponent
  if -4 < point && point ≤ 16 then positional ds point else scientific ds (point - 1)

end Decimal

namespace Binary64

def floorLog10 (num den : Nat) : Int :=
  let k : Int := ((Nat.toDigits 10 num).length : Int) - (Nat.toDigits 10 den).length
  if den * 10 ^ k.toNat ≤ num * 10 ^ (-k).toNat then k else k - 1

def readsBack (x : Binary64) (d : Decimal) : Bool :=
  ofFraction? x.negative d.num d.den == some x

/-- Of the two neighbours of the value with steps of `10 ^ exponent`, the nearest that reads back
as the number. A tie goes to the even one. -/
def neighbour? (x : Binary64) (exponent : Int) : Option Decimal :=
  let num := x.num * 10 ^ (-exponent).toNat
  let den := x.den * 10 ^ exponent.toNat
  let low : Decimal := ⟨num / den, exponent⟩
  let high : Decimal := ⟨num / den + 1, exponent⟩
  let (near, far) := if roundHalfEven num den = num / den then (low, high) else (high, low)
  if x.readsBack near then some near else if x.readsBack far then some far else none

/-- The value itself, which reads back whatever its number of digits. -/
def exactDecimal (x : Binary64) : Decimal :=
  if x.exponent < 0 then ⟨x.significand * 5 ^ (-x.exponent).toNat, x.exponent⟩
  else ⟨x.significand * 2 ^ x.exponent.toNat, 0⟩

def shortest (x : Binary64) : Decimal :=
  let top := floorLog10 x.num x.den
  let found := (List.range 17).findSome? fun (n : Nat) => x.neighbour? (top - n)
  let d := found.getD x.exactDecimal
  Decimal.stripFrom (Nat.toDigits 10 d.digits).length d.digits d.exponent

def toText (x : Binary64) : Text :=
  (if x.negative then ['-'] else []) ++
    if x.significand = 0 then "0.0".toList else x.shortest.toText

end Binary64

end PatchReview
