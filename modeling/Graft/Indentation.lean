import Graft.Text

set_option autoImplicit false

/-!
Indentation: what a line starts with, and moving whole texts left and right. Lines listed as
verbatim, the continuation lines of a string, stay as they are.
-/

namespace Graft

namespace Indentation

def ofLine (source : Text) (offset : Nat) : Text :=
  Text.indentation (source.drop (source.lineStart offset))

def strip (width : Nat) (line : Text) : Text :=
  line.drop (min width (Text.indentation line).length)

def dedentTail (t indent : Text) : Text :=
  match t.splitOn '\n' with
  | [] => []
  | first :: rest => Text.unlines (first :: rest.map (strip indent.length))

def mapLines (f : Text → Text) (verbatim : List Nat) (t : Text) : Text :=
  Text.unlines ((t.splitOn '\n').mapIdx fun i line => if verbatim.contains i then line else f line)

/-- Moves every line to the left and empties the blank ones. -/
def dedent (t : Text) (width : Nat) (verbatim : List Nat) : Text :=
  mapLines (fun line => if line.isBlankText then [] else strip width line) verbatim t

def indent (t by_ : Text) (verbatim : List Nat) : Text :=
  if by_.isEmpty then t
  else mapLines (fun line => if line.isBlankText then line else by_ ++ line) verbatim t

def commonPrefix : Text → Text → Text
  | a :: as, b :: bs => if a == b then a :: commonPrefix as bs else []
  | _, _ => []

def shared (ls : List Text) : Text :=
  match (ls.filter (!·.isEmpty)).map Text.indentation with
  | [] => []
  | first :: rest => rest.foldl commonPrefix first

/-- The lines without what all of them start with; those that hold only blanks are emptied. -/
def flushLeft (isBlankLine : Text → Bool) (ls : List Text) : List Text :=
  let ls := ls.map fun line => if isBlankLine line then [] else line
  ls.map (·.drop (shared ls).length)

end Indentation

end Graft
