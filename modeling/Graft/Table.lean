import Graft.Text

set_option autoImplicit false

/-!
Ordered tables: names with values, whose order is the order of output.
-/

namespace Graft

structure Table (α : Type) where
  entries : List (Text × α)
  deriving Inhabited

namespace Table

variable {α : Type}

def empty : Table α := ⟨[]⟩

def keys (t : Table α) : List Text := t.entries.map (·.1)

def values (t : Table α) : List α := t.entries.map (·.2)

def isEmpty (t : Table α) : Bool := t.entries.isEmpty

def contains (t : Table α) (name : Text) : Bool := t.entries.any (·.1 == name)

def get? (t : Table α) (name : Text) : Option α := t.entries.lookup name

def erase (t : Table α) (name : Text) : Table α := ⟨t.entries.filter (·.1 != name)⟩

/-- A name already there keeps its slot and takes the new value; another goes last. -/
def add (t : Table α) (name : Text) (v : α) : Table α :=
  if t.contains name then ⟨t.entries.map fun e => if e.1 == name then (name, v) else e⟩
  else ⟨t.entries ++ [(name, v)]⟩

/-- Goes last, in place of any entry of that name. -/
def putLast (t : Table α) (name : Text) (v : α) : Table α := ⟨(t.erase name).entries ++ [(name, v)]⟩

/-- Takes the slot of `old` under a new name; another entry of the new name is dropped. -/
def putInPlace (t : Table α) (old new : Text) (v : α) : Table α :=
  ⟨t.entries.filterMap fun e =>
    if e.1 == old then some (new, v) else if e.1 == new then none else some e⟩

def ofList (es : List (Text × α)) : Table α := es.foldl (fun t e => t.add e.1 e.2) empty

end Table

end Graft
