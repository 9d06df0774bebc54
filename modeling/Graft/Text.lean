import Graft.Text.Blank

set_option autoImplicit false

/-!
Texts are lists of characters, so an offset into a text counts code points.

The operations here are those every notation shares: trimming, splitting, searching and joining.
-/

namespace Graft

abbrev Text := List Char

namespace Text

def toString (t : Text) : String := String.ofList t

def dropLastWhile (p : Char → Bool) (t : Text) : Text := (t.reverse.dropWhile p).reverse

def trimStart (t : Text) : Text := t.dropWhile isBlank

def trimEnd (t : Text) : Text := t.dropLastWhile isBlank

def trim (t : Text) : Text := trimEnd (trimStart t)

def isBlankText (t : Text) : Bool := t.all isBlank

def indentation (t : Text) : Text := t.takeWhile isIndent

/-- Cuts at every character with `p`, which is dropped; there is always at least one piece. -/
def splitWhen (p : Char → Bool) : Text → List Text
  | [] => [[]]
  | c :: cs =>
    if p c then [] :: splitWhen p cs
    else match splitWhen p cs with
      | [] => [[c]]
      | piece :: pieces => (c :: piece) :: pieces

def splitOn (sep : Char) (t : Text) : List Text := splitWhen (· == sep) t

def join (sep : Text) (ts : List Text) : Text := List.intercalate sep ts

def words (t : Text) : List Text := (splitWhen isBlank t).filter (!·.isEmpty)

def squeeze (t : Text) : Text := join [' '] (words t)

def unlines (ts : List Text) : Text := join ['\n'] ts

def startsWith (t pre : Text) : Bool := pre.isPrefixOf t

def endsWith (t post : Text) : Bool := post.isSuffixOf t

def dropPrefix (t pre : Text) : Text := if pre.isPrefixOf t then t.drop pre.length else t

def find? (needle : Text) : Text → Option Nat
  | [] => if needle.isEmpty then some 0 else none
  | c :: cs =>
    if needle.isPrefixOf (c :: cs) then some 0 else (find? needle cs).map (· + 1)

def includes (t needle : Text) : Bool := (find? needle t).isSome

def slice (t : Text) (start stop : Nat) : Text := (t.take stop).drop start

def lineStart (t : Text) (offset : Nat) : Nat :=
  let head := t.take offset
  head.length - (head.reverse.takeWhile (· != '\n')).length

/-- One-based line and column of `offset`, lines ending at a newline. -/
def position (t : Text) (offset : Nat) : Nat × Nat :=
  ((t.take offset).count '\n' + 1, offset - lineStart t offset + 1)

def expand (f : Char → Text) (t : Text) : Text := t.flatMap f

end Text

end Graft
