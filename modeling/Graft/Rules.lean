import Graft.Directive
import Graft.Piece
import Graft.Text.Pattern

set_option autoImplicit false

/-!
How a notation carries out each directive on a piece. A rule that cannot be applied answers `none`
and leaves the piece alone.
-/

namespace Graft

structure Rules (δ : Type) where
  rename : Piece δ → Text → Option (Piece δ)
  access : Piece δ → Text → Option (Piece δ)
  decorate : Piece δ → List Text → Option (Piece δ)
  setParameters : Piece δ → List Text → Option (Piece δ)
  /-- Carries out the directives that only some notations know, and names those it could not. -/
  extend : Piece δ → Commands → Piece δ × List Field

/-- The words and names of a notation, from which the plain rules are made. -/
structure Vocabulary where
  supported : List Field := [.access, .decorators, .rename, .delete, .params]
  visibilities : List Text := []
  privateMarker : Option Text := none
  isName : Text → Bool
  isParameter : Text → Bool
  isDecorator : Text → Bool := fun d => !d.isEmpty

namespace Vocabulary

variable {δ : Type}

def rename (v : Vocabulary) (p : Piece δ) (name : Text) : Option (Piece δ) :=
  if v.supported.contains .rename && v.isName name then some { p with name } else none

def makePrivate (v : Vocabulary) (p : Piece δ) : Option (Piece δ) :=
  v.privateMarker.map fun mark =>
    if p.name.startsWith mark then p else { p with name := mark ++ p.name }

def access (v : Vocabulary) (p : Piece δ) (value : Text) : Option (Piece δ) :=
  if !v.supported.contains .access then none
  else
    let word := Text.lower value.trim
    if word == "private".toList then v.makePrivate p
    else if v.visibilities.contains word then some { p with visibility := some word }
    else none

def plainDecorator (d : Text) : Text := (d.trim.dropPrefix ['@']).trim

def decorate (v : Vocabulary) (p : Piece δ) (decorators : List Text) : Option (Piece δ) :=
  let plain := decorators.map plainDecorator
  if v.supported.contains .decorators && plain.all v.isDecorator then
    some { p with decorators := plain }
  else none

def setParameters (v : Vocabulary) (p : Piece δ) (parameters : List Text) : Option (Piece δ) :=
  if v.supported.contains .params && parameters.all v.isParameter then
    some { p with parameters, parameterText := none }
  else none

def extend (p : Piece δ) (c : Commands) : Piece δ × List Field :=
  (p, [Field.isAsync, .isUnsafe, .returnType].filter c.seen.contains)

def rules (v : Vocabulary) : Rules δ where
  rename := v.rename
  access := v.access
  decorate := v.decorate
  setParameters := v.setParameters
  extend := extend

open Text.Pattern in
def identifier : Text.Pattern :=
  all [one fun c => Text.isLetter c || c == '_' || c == '$',
    many (one fun c => Text.isWord c || c == '$'), finish]

end Vocabulary

end Graft
