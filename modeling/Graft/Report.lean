import Graft.Error

set_option autoImplicit false

/-!
The outcome of a merge.
-/

namespace Graft

structure Report where
  text : Text
  notationUsed : Notation
  warnings : List Warning := []

end Graft
