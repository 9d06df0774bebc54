import Graft.Bisect

set_option autoImplicit false

/-!
Sets of code points given by their sorted boundaries: the code points below the first boundary are
outside, those up to the second inside, and so on in turn.
-/

namespace Graft.Text

structure CodePoints where
  bounds : Array Nat

/-- Inside where an odd number of boundaries lies at or below the code point. -/
def CodePoints.contains (s : CodePoints) (c : Char) : Bool :=
  bisect (fun i => s.bounds.getD i 0 ≤ c.toNat) 0 s.bounds.size % 2 == 1

end Graft.Text
