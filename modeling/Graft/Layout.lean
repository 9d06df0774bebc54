import Graft.Text

set_option autoImplicit false

/-!
The layouts in which pieces are written anew from their parts. A layout starts at the first column
and has no newline at its end.
-/

namespace Graft

namespace Layout

def line (before : String) (after : String) (t : Text) : Text :=
  before.toList ++ t ++ after.toList ++ ['\n']

def followedBySpace (t : Text) : Text := if t.isEmpty then [] else t ++ [' ']

def dropFinalNewlines (t : Text) : Text := t.dropLastWhile (· == '\n')

structure Function where
  comments : List Text
  attributes : List Text
  visibility : Text
  qualifiers : Text
  name : Text
  generics : Text
  parameters : Text
  suffix : Text
  body : Text

def Function.render (f : Function) : Text :=
  dropFinalNewlines <|
    f.comments.flatMap (line "" "") ++ f.attributes.flatMap (line "#[" "]") ++
      followedBySpace f.visibility ++ f.qualifiers ++ "fn ".toList ++ f.name ++ f.generics ++
      '(' :: f.parameters ++ ')' :: f.suffix ++ f.body

/-- A member of a TypeScript class: a declaration as written, or a method from its parts. -/
structure Member where
  comments : List Text
  decorators : List Text
  /-- Where it is empty the parts below count. -/
  declaration : Text
  accessibility : Text
  modifiers : Text
  name : Text
  afterName : Text
  parameters : Text
  suffix : Text
  body : Text

def Member.render (m : Member) : Text :=
  dropFinalNewlines <|
    m.comments.flatMap (line "" "") ++ m.decorators.flatMap (line "@" "") ++
      if m.declaration.isEmpty then
        followedBySpace m.accessibility ++ m.modifiers ++ m.name ++ m.afterName ++
          '(' :: m.parameters ++ ')' :: m.suffix ++ m.body
      else m.declaration

end Layout

end Graft
