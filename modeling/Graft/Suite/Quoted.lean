import Graft.Suite.Tree
import Graft.Text.Quoted

set_option autoImplicit false

/-!
String and number literals as they are written out. A string is written with as few escapes as its
quotes allow.
-/

namespace Graft.Suite

def showsPoint (n : Nat) : Bool := n.isValidChar && Text.isPrintable (Char.ofNat n)

def escapePoint (n : Nat) : Text :=
  if n == 9 then ['\\', 't']
  else if n == 10 then ['\\', 'n']
  else if n == 13 then ['\\', 'r']
  else if n == 92 then ['\\', '\\']
  else if n < 0x100 then '\\' :: 'x' :: Text.hex 2 n
  else if n < 0x10000 then '\\' :: 'u' :: Text.hex 4 n
  else '\\' :: 'U' :: Text.hex 8 n

/-- A code point as it stands if it shows, else its escape. -/
def writePoint (n : Nat) : Text :=
  if n != 92 && showsPoint n then [Char.ofNat n] else escapePoint n

def writeLoose (escapeBreaks : Bool) (n : Nat) : Text :=
  if !escapeBreaks && (n == 9 || n == 10) then [Char.ofNat n] else writePoint n

def points (t : Text) : List Nat := t.map Char.toNat

/-- Double quotes only where a single quote occurs inside and a double one does not. -/
def quoteOf (ps : List Nat) : Char := if ps.contains 39 && !ps.contains 34 then '"' else '\''

def escaped (q : Char) (ps : List Nat) : Text :=
  ps.flatMap fun n => if n == q.toNat then ['\\', q] else writePoint n

def quotedPoints (ps : List Nat) : Text :=
  let q := quoteOf ps
  q :: (escaped q ps ++ [q])

def quotedBytes (bs : List Nat) : Text :=
  let q := quoteOf bs
  let write (n : Nat) : Text :=
    if n == q.toNat then ['\\', q]
    else if 32 ≤ n && n < 127 && n != 92 then [Char.ofNat n]
    else escapePoint n
  'b' :: q :: (bs.flatMap write ++ [q])

def singleQuotes : List Text := [['\''], ['"']]

def tripleQuotes : List Text := [['"', '"', '"'], ['\'', '\'', '\'']]

def allQuotes : List Text := singleQuotes ++ tripleQuotes

def preferring (last : Option Char) (quotes : List Text) : List Text :=
  quotes.filter (·.head? != last) ++ quotes.filter (·.head? == last)

/-- The inside of a literal, and the quotes it may stand in. Where none of them can do without
escapes, the quotes inside are escaped. -/
def withQuotes (ps : List Nat) (quotes : List Text) (escapeBreaks : Bool) : Text × List Text :=
  let inside := ps.flatMap (writeLoose escapeBreaks)
  let possible := if inside.contains '\n' then quotes.filter tripleQuotes.contains else quotes
  let possible := possible.filter fun q => !(Text.includes inside q)
  if possible.isEmpty then
    let q := quoteOf ps
    (escaped q ps, [(quotes.find? (·.contains q)).getD [q]])
  else
    match inside.getLast? with
    | none => (inside, possible)
    | some last =>
      let possible := preferring (some last) possible
      if (possible.head?.bind (·.head?)) == some last then
        (inside.dropLast ++ ['\\', last], possible)
      else (inside, possible)

def sparingly (ps : List Nat) (quotes : List Text) : Text :=
  let (inside, possible) := withQuotes ps quotes false
  let q := possible.headD []
  q ++ inside ++ q

def overflowing : Text := "1e309".toList

def imaginaryText (d : Double) : Text :=
  let t := d.render overflowing
  (if Text.endsWith t ['.', '0'] then t.take (t.length - 2) else t) ++ ['j']

def Constant.print (avoid : Bool) : Constant → Text
  | .none => "None".toList
  | .true => "True".toList
  | .false => "False".toList
  | .ellipsis => "...".toList
  | .int n => Nat.toDigits 10 n
  | .float d => d.render overflowing
  | .imaginary d => imaginaryText d
  | .bytes bs => quotedBytes bs
  | .text ps marked =>
    (if marked then ['u'] else []) ++ if avoid then sparingly ps allQuotes else quotedPoints ps

end Graft.Suite
