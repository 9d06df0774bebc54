import Graft.Text

set_option autoImplicit false

/-!
Lines under a chosen set of line ends; a carriage return and the newline after it end one line
together.
-/

namespace Graft.Text

def linesBy (isEnd : Char → Bool) : Text → List (Text × Text)
  | [] => []
  | '\r' :: '\n' :: cs => ([], ['\r', '\n']) :: linesBy isEnd cs
  | c :: cs =>
    if isEnd c then ([], [c]) :: linesBy isEnd cs
    else match linesBy isEnd cs with
      | [] => [([c], [])]
      | (line, stop) :: rest => (c :: line, stop) :: rest

def lines (t : Text) : List Text := (linesBy isBreak t).map (·.1)

def lineOffsets (isEnd : Char → Bool) (t : Text) : List Nat :=
  ((linesBy isEnd t).foldl
    (fun (starts, n) (line, stop) => (n :: starts, n + line.length + stop.length))
      ([], 0)).1.reverse

def plainNewlines : Text → Text
  | [] => []
  | '\r' :: '\n' :: cs => '\n' :: plainNewlines cs
  | c :: cs => (if c == '\r' then '\n' else c) :: plainNewlines cs

end Graft.Text
