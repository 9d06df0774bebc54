import Graft.Table

set_option autoImplicit false

/-!
Pieces: the named parts of a document that a merge keeps, replaces, adds or deletes. What only one
notation needs to know of its pieces is held in `details`.
-/

namespace Graft

inductive Origin where
  | host
  | snippet
  deriving DecidableEq, Repr, Inhabited

structure Piece (δ : Type) where
  name : Text
  kind : Text := "member".toList
  origin : Origin := .host
  visibility : Option Text := none
  decorators : List Text := []
  parameters : List Text := []
  /-- The parameter list as written; gone once the parameters were set anew. -/
  parameterText : Option Text := none
  body : Option Text := none
  text : Text := []
  start : Int := -1
  stop : Int := -1
  /-- The comments above the piece that are no directives. -/
  comments : List Text := []
  details : δ
  anonymous : Bool := false
  /-- The name of the host piece that this one stands for. -/
  replaces : Option Text := none
  deriving Inhabited

abbrev Pieces (δ : Type) := Table (Piece δ)

namespace Pieces

variable {δ : Type}

def add (t : Pieces δ) (p : Piece δ) : Pieces δ := Table.add t p.name p

def ofList (ps : List (Piece δ)) : Pieces δ := ps.foldl add Table.empty

end Pieces

end Graft
