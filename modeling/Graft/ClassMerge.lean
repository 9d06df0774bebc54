import Graft.Reconcile

set_option autoImplicit false

/-!
Merging the classes of a snippet into the classes of a document: which class goes where, and how the
bodies written anew are put into the source.
-/

namespace Graft

/-- The classes of the document touched so far, by their number, with their members; the classes to
add; and the warnings. -/
structure ClassMerge (δ : Type) where
  tables : List (Nat × Pieces δ) := []
  added : List Text := []
  warnings : List Warning := []

namespace ClassMerge

variable {δ : Type}

def warn (m : ClassMerge δ) (ws : List Warning) : ClassMerge δ :=
  { m with warnings := m.warnings ++ ws }

def add (m : ClassMerge δ) (text : Text) : ClassMerge δ := { m with added := m.added ++ [text] }

def setTable (m : ClassMerge δ) (i : Nat) (t : Pieces δ) : ClassMerge δ :=
  { m with
    tables :=
      if m.tables.any (·.1 == i) then m.tables.map fun e => if e.1 == i then (i, t) else e
      else m.tables ++ [(i, t)] }

def isIdle (m : ClassMerge δ) : Bool := m.tables.isEmpty && m.added.isEmpty

/-- The class of the document that a class of the snippet goes into: the first one for the
container, else the last one with its name. -/
def hostIndex? (o : Options) (names : List Text) (name : Text) : Option Nat :=
  if o.isContainer name then if names.isEmpty then none else some 0
  else (List.range names.length).reverse.find? fun i => names[i]? == some name

structure Replacement where
  start : Nat
  stop : Nat
  text : Text
  deriving DecidableEq, Repr

def replaceFrom (source : Text) : Nat → List Replacement → Text
  | cursor, [] => source.drop cursor
  | cursor, r :: rs => source.slice cursor r.start ++ r.text ++ replaceFrom source r.stop rs

def addClass (separator text added : Text) : Text := text.trimEnd ++ separator ++ added ++ ['\n']

end ClassMerge

end Graft
