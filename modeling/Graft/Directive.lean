import Graft.Text.Lines
import Graft.Text.Lowercase
import Graft.Text.Word

set_option autoImplicit false

/-!
Directives: instructions for a merge written in the comments above a piece, one to a line, as in
`// @rename total`. A line is freed of its comment marks, then read as a name and a value. Lists
grow, scalars keep the last value, and names nobody knows are passed over.
-/

namespace Graft

inductive Field where
  | access
  | decorators
  | rename
  | delete
  | params
  | isAsync
  | isUnsafe
  | returnType
  deriving DecidableEq, Repr, Inhabited

namespace Field

def all : List Field :=
  [access, decorators, rename, delete, params, isAsync, isUnsafe, returnType]

def name : Field → Text
  | access => "access".toList
  | decorators => "decorators".toList
  | rename => "rename".toList
  | delete => "delete".toList
  | params => "params".toList
  | isAsync => "is_async".toList
  | isUnsafe => "is_unsafe".toList
  | returnType => "return_type".toList

def ofName? (t : Text) : Option Field := all.find? fun f => f.name == t

def aliases : List (Text × Field) :=
  [("access", access), ("visibility", access), ("decorator", decorators),
    ("decorators", decorators), ("attribute", decorators), ("attributes", decorators),
    ("rename", rename), ("delete", delete), ("params", params), ("parameters", params),
    ("async", isAsync), ("unsafe", isUnsafe), ("returns", returnType),
    ("return", returnType)].map fun (w, f) => (w.toList, f)

def ofWord? (t : Text) : Option Field := aliases.lookup (Text.lower t)

def isFlag : Field → Bool
  | delete | isAsync | isUnsafe => true
  | _ => false

end Field

structure Directive where
  field : Field
  value : Text
  deriving DecidableEq, Repr

namespace Directive

/-- Stars that open a comment line; the star of a closing mark is not one of them. -/
def dropStars (t : Text) : Option Text :=
  let stars := t.takeWhile (· == '*')
  let rest := t.dropWhile (· == '*')
  let count := if rest.head? == some '/' then stars.length - 1 else stars.length
  if count == 0 then none else some (t.drop count)

def dropOpening? (t : Text) : Option Text :=
  match t with
  | '/' :: '/' :: '/' :: rest => some rest
  | '/' :: '/' :: rest => some rest
  | '/' :: '*' :: rest => some (rest.dropWhile (· == '*'))
  | '*' :: _ => dropStars t
  | '#' :: rest => some (rest.dropWhile (· == '#'))
  | '<' :: '!' :: '-' :: '-' :: rest => some rest
  | _ => none

def dropOpening (t : Text) : Text :=
  match dropOpening? t.trimStart with
  | some rest => rest
  | none => t

def dropClosing (t : Text) : Text :=
  match t.trimEnd.reverse with
  | '>' :: '-' :: '-' :: rest => rest.reverse
  | '/' :: '*' :: rest => (rest.dropWhile (· == '*')).reverse
  | _ => t

def dropMarks (t : Text) : Text := (dropClosing (dropOpening t)).trim

def isNameChar (c : Char) : Bool := Text.isWord c || c == '-'

/-- `@`, a name that starts with an ASCII letter, and after blanks a value; nothing else. -/
def split? : Text → Option (Text × Text)
  | '@' :: c :: cs =>
    let name := c :: cs.takeWhile isNameChar
    let rest := cs.dropWhile isNameChar
    if Text.isLetter c && (rest.head?.map Text.isBlank).getD true then some (name, Text.trim rest)
    else none
  | _ => none

def ofLine? (line : Text) : Option Directive := do
  let (name, value) ← split? (dropMarks line)
  let field ← Field.ofWord? name
  return ⟨field, value⟩

/-- A directive that needs a value and has none changes nothing. -/
def isEffective (d : Directive) : Bool := d.field.isFlag || !d.value.isEmpty

def ofComments (comments : List Text) : List Directive :=
  ((comments.flatMap Text.lines).filterMap ofLine?).filter isEffective

end Directive

/-- What the directives above one piece add up to. -/
structure Commands where
  access : Option Text := none
  decorators : List Text := []
  rename : Option Text := none
  delete : Bool := false
  params : Option Text := none
  isAsync : Bool := false
  isUnsafe : Bool := false
  returnType : Option Text := none
  /-- The fields set so far, in order of first mention. -/
  seen : List Field := []
  deriving DecidableEq, Repr, Inhabited

namespace Commands

def isEmpty (c : Commands) : Bool := c.seen.isEmpty

def note (c : Commands) (f : Field) : Commands :=
  if c.seen.contains f then c else { c with seen := c.seen ++ [f] }

def assign (c : Commands) (d : Directive) : Commands :=
  match d.field with
  | .access => { c with access := some d.value }
  | .decorators => { c with decorators := c.decorators ++ [d.value] }
  | .rename => { c with rename := some d.value }
  | .delete => { c with delete := true }
  | .params => { c with params := some d.value }
  | .isAsync => { c with isAsync := true }
  | .isUnsafe => { c with isUnsafe := true }
  | .returnType => { c with returnType := some d.value }

def apply (c : Commands) (d : Directive) : Commands := (c.assign d).note d.field

def ofComments (comments : List Text) : Commands :=
  (Directive.ofComments comments).foldl apply {}

end Commands

def isDirectiveComment (comment : Text) : Bool := !(Commands.ofComments [comment]).isEmpty

def splitParams (raw : Text) : List Text := ((raw.splitOn ',').map Text.trim).filter (!·.isEmpty)

end Graft
