import Graft.Text
import Graft.Text.Printable

set_option autoImplicit false

/-!
Texts quoted for a message: single quotes unless only those occur inside, escapes for the quote, the
backslash and everything that would not show.
-/

namespace Graft.Text

def hex (width n : Nat) : Text :=
  let digits := Nat.toDigits 16 n
  List.replicate (width - digits.length) '0' ++ digits

def escapeCode (c : Char) : Text :=
  let n := c.toNat
  if n < 0x100 then '\\' :: 'x' :: hex 2 n
  else if n < 0x10000 then '\\' :: 'u' :: hex 4 n
  else '\\' :: 'U' :: hex 8 n

def escapeChar (quote c : Char) : Text :=
  if c == quote || c == '\\' then ['\\', c]
  else if c == '\n' then ['\\', 'n']
  else if c == '\r' then ['\\', 'r']
  else if c == '\t' then ['\\', 't']
  else if isPrintable c then [c]
  else escapeCode c

def quoteFor (t : Text) : Char := if List.contains t '\'' && !List.contains t '"' then '"' else '\''

def quoted (t : Text) : Text :=
  let q := quoteFor t
  q :: (expand (escapeChar q) t ++ [q])

end Graft.Text
