import Graft.FileTree
import Graft.Merge

set_option autoImplicit false

/-!
Writing merged documents: what is written must still be readable under its notation.
-/

namespace Graft

structure Writer where
  checks : List (Notation × (Text → Except Error Unit)) := []

namespace Writer

def check (w : Writer) (n : Option Notation) (validates : Bool) (content : Text) :
    Except Error Unit :=
  match n with
  | some n =>
    if !validates then .ok ()
    else match w.checks.lookup n with
      | some own => own content
      | none => validate n content
  | none => .ok ()

structure Request where
  path : Path
  content : List Nat
  readAs : Option Notation := none
  validates : Bool := true

def write (w : Writer) (t : FileTree) (r : Request) : FileTree × Except Error Unit :=
  t.write (w.check r.readAs r.validates) r.path r.content

def run (w : Writer) : FileTree → List Request → List (FileTree × Except Error Unit)
  | _, [] => []
  | t, r :: rs => w.write t r :: w.run (w.write t r).1 rs

end Writer

end Graft
