import Graft.Text

set_option autoImplicit false

/-!
Decimal numbers read into the nearest double and written back with the fewest digits that read as
the same double.
-/

namespace Graft

/-- A double without its sign: `mantissa * 2 ^ exponent`, or too large to hold. -/
inductive Double where
  | finite (mantissa : Nat) (exponent : Int)
  | infinite
  deriving DecidableEq, Repr

namespace Double

/-- The quotient rounded to the nearest natural number, a half to the even neighbour. -/
def roundDiv (num den : Nat) : Nat :=
  let q := num / den
  let r := num % den
  if 2 * r < den then q
  else if den < 2 * r then q + 1
  else q + q % 2

def scale (num den : Nat) (e : Int) : Nat × Nat :=
  if e < 0 then (num * Nat.pow 2 (-e).toNat, den) else (num, den * Nat.pow 2 e.toNat)

/-- The double nearest to a positive quotient: fifty-three bits, exponents from -1074. -/
def nearest (num den : Nat) : Double :=
  let guess : Int := (Nat.log2 num : Int) - Nat.log2 den - 53
  let fits (e : Int) : Bool := let (n, d) := scale num den e; n < d * Nat.pow 2 53
  let e := if fits guess then guess else if fits (guess + 1) then guess + 1 else guess + 2
  let e := max e (-1074)
  let (n, d) := scale num den e
  let m := roundDiv n d
  let (m, e) := if m = Nat.pow 2 53 then (Nat.pow 2 52, e + 1) else (m, e)
  if e > 971 then infinite else if m = 0 then finite 0 0 else finite m e

def ofDecimal (digits : Nat) (e : Int) : Double :=
  if digits = 0 then finite 0 0
  else
    let magnitude : Int := e + (Nat.toDigits 10 digits).length
    if magnitude > 400 then infinite
    else if magnitude < -400 then finite 0 0
    else if e < 0 then nearest digits (Nat.pow 10 (-e).toNat)
    else nearest (digits * Nat.pow 10 e.toNat) 1

def ratio (mantissa : Nat) (exponent : Int) : Nat × Nat :=
  if exponent < 0 then (mantissa, Nat.pow 2 (-exponent).toNat)
  else (mantissa * Nat.pow 2 exponent.toNat, 1)

def leading (num den : Nat) : Nat → Int → Int
  | 0, p => p
  | fuel + 1, p =>
    let below := if p < 0 then num * Nat.pow 10 (-p).toNat < den else num < den * Nat.pow 10 p.toNat
    if below then leading num den fuel (p - 1) else p

/-- The nearer of the two neighbours of the value on the grid of multiples of `10 ^ p` that read
back as it. -/
def onGrid? (v : Double) (num den : Nat) (p : Int) : Option Nat :=
  let (n, d) :=
    if p < 0 then (num * Nat.pow 10 (-p).toNat, den) else (num, den * Nat.pow 10 p.toNat)
  let lo := n / d
  let reads (k : Nat) : Bool := k != 0 && ofDecimal k p == v
  match reads lo, reads (lo + 1) with
  | true, true => some (roundDiv n d)
  | true, false => some lo
  | false, true => some (lo + 1)
  | false, false => none

def shortestFrom (v : Double) (num den : Nat) (lead : Int) : Nat → Int → Nat × Int
  | 0, p => (num / den, p)
  | fuel + 1, p =>
    match onGrid? v num den p with
    | some k => (k, p)
    | none => shortestFrom v num den lead fuel (p - 1)

def shortest (mantissa : Nat) (exponent : Int) : Nat × Int :=
  let (num, den) := ratio mantissa exponent
  let lead := leading num den 700 309
  shortestFrom (.finite mantissa exponent) num den lead 18 lead

def padExponent (e : Nat) : Text :=
  let digits := Nat.toDigits 10 e
  if digits.length < 2 then '0' :: digits else digits

/-- Positional up to sixteen digits before the point and down to a ten-thousandth, with an exponent
beyond; a whole number ends in a point and a zero. -/
def layout (k : Nat) (p : Int) : Text :=
  let digits := Text.dropLastWhile (· == '0') (Nat.toDigits 10 k)
  let point : Int := (Nat.toDigits 10 k).length + p
  if point ≤ -4 || point > 16 then
    let e := point - 1
    let mark := if e < 0 then ['e', '-'] else ['e', '+']
    let fraction := digits.drop 1
    digits.take 1 ++ (if fraction.isEmpty then [] else '.' :: fraction) ++ mark ++
      padExponent e.natAbs
  else if point ≤ 0 then
    '0' :: '.' :: (List.replicate (-point).toNat '0' ++ digits)
  else
    let whole := digits.take point.toNat
    let fraction := digits.drop point.toNat
    whole ++ List.replicate (point.toNat - whole.length) '0' ++
      '.' :: (if fraction.isEmpty then ['0'] else fraction)

def render (large : Text) : Double → Text
  | infinite => large
  | finite 0 _ => "0.0".toList
  | finite m e => let (k, p) := shortest m e; layout k p

end Double

end Graft
