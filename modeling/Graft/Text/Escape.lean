import Graft.Text

set_option autoImplicit false

/-!
Escape sequences, by which a text sets the colours of a terminal. They are no part of what is
printed anywhere else.
-/

namespace Graft.Text

def isEscapeParameter (c : Char) : Bool := isDigit c || c == ';' || c == '?'

/-- The length of the escape sequence at the front of a text, zero if there is none. -/
def escapeLength : Text → Nat
  | '\x1b' :: '[' :: cs =>
    let parameters := cs.takeWhile isEscapeParameter
    match cs.drop parameters.length with
    | c :: _ => if isLetter c then parameters.length + 3 else 0
    | [] => 0
  | _ => 0

def withoutEscapesFrom : Nat → Text → Text
  | _, [] => []
  | skip + 1, _ :: cs => withoutEscapesFrom skip cs
  | 0, c :: cs =>
    match escapeLength (c :: cs) with
    | 0 => c :: withoutEscapesFrom 0 cs
    | skip + 1 => withoutEscapesFrom skip cs

def withoutEscapes (t : Text) : Text := withoutEscapesFrom 0 t

end Graft.Text
