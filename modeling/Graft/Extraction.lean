import Graft.Directive
import Graft.Piece

set_option autoImplicit false

/-!
What a notation finds in a document: its pieces, and the directives written above them.
-/

namespace Graft

structure Extraction (δ : Type) where
  table : Pieces δ := .empty
  commands : Table Commands := .empty
  deriving Inhabited

namespace Extraction

variable {δ : Type}

/-- Enters a piece with its directives; of several pieces with one name the last counts. -/
def add (e : Extraction δ) (p : Piece δ) (c : Commands) : Extraction δ where
  table := Pieces.add e.table p
  commands := if c.isEmpty then e.commands else e.commands.add p.name c

def commandsOf (e : Extraction δ) (name : Text) : Commands := (e.commands.get? name).getD {}

end Extraction

end Graft
