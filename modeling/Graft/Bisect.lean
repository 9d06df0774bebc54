set_option autoImplicit false

/-!
Binary search for the point where a test turns from true to false.
-/

namespace Graft

/-- The first index from `lo` up to `hi` that fails a test which, once false, stays false. -/
def bisect (p : Nat → Bool) (lo hi : Nat) : Nat :=
  if lo < hi then
    let mid := (lo + hi) / 2
    if p mid then bisect p (mid + 1) hi else bisect p lo mid
  else lo
termination_by hi - lo

end Graft
