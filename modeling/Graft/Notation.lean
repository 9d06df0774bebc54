import Graft.Text
import Graft.Text.Lowercase

set_option autoImplicit false

/-!
The closed set of notations a document can be written in, and how a tag or a file name chooses one.
-/

namespace Graft

inductive Notation where
  /-- JavaScript and TypeScript classes. -/
  | script
  /-- Python classes. -/
  | suite
  /-- Rust functions. -/
  | item
  /-- CSS rules. -/
  | style
  /-- HTML documents. -/
  | markup
  deriving DecidableEq, Repr, Inhabited

namespace Notation

def all : List Notation := [script, suite, item, style, markup]

def tag : Notation → Text
  | script => "structural-class".toList
  | suite => "python-class".toList
  | item => "function-unit".toList
  | style => "style-rule".toList
  | markup => "markup-passthrough".toList

def fileTypes : List (Text × Notation) :=
  [("js", script), ("jsx", script), ("mjs", script), ("cjs", script), ("ts", script),
    ("tsx", script), ("py", suite), ("rs", item), ("css", style), ("html", markup),
    ("htm", markup)].map fun (t, n) => (t.toList, n)

def ofTag? (t : Text) : Option Notation := all.find? fun n => n.tag == t

def ofFileType? (t : Text) : Option Notation := fileTypes.lookup t

def dropDots (t : Text) : Text := t.dropWhile (· == '.')

/-- A tag, or a file type with or without its dot, in any letter case. -/
def resolve? (t : Text) : Option Notation :=
  let key := Text.lower t.trim
  ofTag? key <|> ofFileType? (dropDots key)

def fileName (path : Text) : Text :=
  (((path.splitOn '/').filter fun part => part != [] && part != ['.']).getLast?).getD []

/-- From the last dot on, unless the name starts or ends there. -/
def suffix (path : Text) : Text :=
  let name := fileName path
  let tail := (name.reverse.takeWhile (· != '.')).reverse
  let stem := name.length - tail.length
  if 1 < stem && !tail.isEmpty then '.' :: tail else []

def ofPath? (path : Text) : Option Notation := ofFileType? (dropDots (Text.lower (suffix path)))

end Notation

end Graft
