import Graft.Suite.Tree

set_option autoImplicit false

/-!
What number and string tokens stand for. A text is a list of code points here, since an escape can
name half of a surrogate pair, which is no character.
-/

namespace Graft.Suite

namespace Literal

def digitsValue (base : Nat) (t : Text) : Nat :=
  t.foldl (fun n c => base * n + (Text.digitValue? c).getD 0) 0

def splitAt (p : Char → Bool) (t : Text) : Text × Text := (t.takeWhile (!p ·), t.dropWhile (!p ·))

def signedValue : Text → Int
  | '-' :: ds => -(digitsValue 10 ds : Int)
  | '+' :: ds => digitsValue 10 ds
  | ds => digitsValue 10 ds

def doubleOf (t : Text) : Double :=
  let (mantissa, exponent) := splitAt (fun c => c == 'e' || c == 'E') t
  let (whole, fraction) := splitAt (· == '.') mantissa
  let fraction := fraction.drop 1
  .ofDecimal (digitsValue 10 (whole ++ fraction)) (signedValue (exponent.drop 1) - fraction.length)

def maxDigits : Nat := 4300

def number? (token : Text) : Option Constant :=
  let t := token.filter (· != '_')
  match t with
  | '0' :: 'x' :: ds | '0' :: 'X' :: ds => some (.int (digitsValue 16 ds))
  | '0' :: 'o' :: ds | '0' :: 'O' :: ds => some (.int (digitsValue 8 ds))
  | '0' :: 'b' :: ds | '0' :: 'B' :: ds => some (.int (digitsValue 2 ds))
  | _ =>
    if t.getLast?.any fun c => c == 'j' || c == 'J' then some (.imaginary (doubleOf t.dropLast))
    else if t.any fun c => c == '.' || c == 'e' || c == 'E' then some (.float (doubleOf t))
    else if t.length ≤ maxDigits then some (.int (digitsValue 10 t))
    else none

structure Body where
  isBytes : Bool
  isRaw : Bool
  isFormat : Bool
  marked : Bool
  text : Text

def bodyOf (token : Text) : Body :=
  let marks := (token.takeWhile Text.isLetter).map Text.lowerAscii
  let rest := token.drop marks.length
  let width := match rest with
    | a :: b :: c :: _ => if a == b && b == c && 6 ≤ rest.length then 3 else 1
    | _ => 1
  { isBytes := marks.contains 'b'
    isRaw := marks.contains 'r'
    isFormat := marks.contains 'f'
    marked := token.head? == some 'u'
    text := (rest.drop width).take (rest.length - 2 * width) }

def isOctal (c : Char) : Bool := '0' ≤ c && c ≤ '7'

def letterEscape? : Char → Option Nat
  | '\\' => some 92
  | '\'' => some 39
  | '"' => some 34
  | 'a' => some 7
  | 'b' => some 8
  | 'f' => some 12
  | 'n' => some 10
  | 'r' => some 13
  | 't' => some 9
  | 'v' => some 11
  | _ => none

def hexDigits? (n : Nat) (t : Text) : Option (Nat × Text) :=
  let ds := t.take n
  if ds.length == n && ds.all Text.isHexDigit then some (digitsValue 16 ds, t.drop n) else none

def named? : Text → Option (Nat × Text)
  | '\x7b' :: rest =>
    match rest.dropWhile (· != '\x7d') with
    | _ :: after => if rest.head? == some '\x7d' then none else some (0xfffd, after)
    | [] => none
  | _ => none

/-- What an escape stands for, given what follows its backslash. An escape nobody knows stands for
itself. -/
def escape? (bytes : Bool) (t : Text) : Option (List Nat × Text) :=
  match t with
  | [] => some ([92], [])
  | '\n' :: rest => some ([], rest)
  | c :: rest =>
    match letterEscape? c with
    | some n => some ([n], rest)
    | none =>
      if isOctal c then
        let ds := (t.take 3).takeWhile isOctal
        let n := digitsValue 8 ds
        some ([if bytes then n % 256 else n], t.drop ds.length)
      else if c == 'x' then (hexDigits? 2 rest).map fun (n, r) => ([n], r)
      else if !bytes && c == 'u' then (hexDigits? 4 rest).map fun (n, r) => ([n], r)
      else if !bytes && c == 'U' then
        (hexDigits? 8 rest).bind fun (n, r) => if n < 0x110000 then some ([n], r) else none
      else if !bytes && c == 'N' then (named? rest).map fun (n, r) => ([n], r)
      else some ([92, c.toNat], rest)

def unescape? (bytes : Bool) : Nat → Text → Option (List Nat)
  | 0, _ => some []
  | _, [] => some []
  | fuel + 1, '\\' :: rest => do
    let (ns, after) ← escape? bytes rest
    return ns ++ (← unescape? bytes fuel after)
  | fuel + 1, c :: rest => (unescape? bytes fuel rest).map (c.toNat :: ·)

def points (t : Text) : List Nat := t.map Char.toNat

/-- The value of a piece of string body; bytes hold ASCII only. -/
def value? (b : Body) (t : Text) : Option (List Nat) :=
  if b.isBytes && t.any (128 ≤ ·.toNat) then none
  else if b.isRaw then some (points t)
  else unescape? b.isBytes t.length t

end Literal

end Graft.Suite
