import Graft.Options
import Graft.Rules
import Graft.Trace

set_option autoImplicit false

/-!
Reconciling the pieces of a snippet with those of the document it is merged into. Piece by piece, in
the order of the snippet: one marked for deletion takes its namesake away; any other replaces its
namesake or is added, after its own directives were carried out.
-/

namespace Graft

structure Reconciliation (δ : Type) where
  table : Pieces δ
  warnings : List Warning := []

namespace Reconcile

variable {δ : Type}

def specialName : Field → Text
  | .isAsync => "async".toList
  | .isUnsafe => "unsafe".toList
  | _ => "returns".toList

def specialValue (c : Commands) : Field → Shown
  | .isAsync => .flag c.isAsync
  | .isUnsafe => .flag c.isUnsafe
  | _ => match c.returnType with
    | some t => .text t
    | none => .nothing

abbrev Applied (δ : Type) := Piece δ × List Warning

/-- Keeps the piece, with a warning, where a rule could not be applied. -/
def attempt (directive value : Text) (rule : Piece δ → Option (Piece δ)) (a : Applied δ) :
    Applied δ :=
  match rule a.1 with
  | some p => (p, a.2)
  | none => (a.1, a.2 ++ [.ignored directive (.text value) a.1.kind a.1.name])

def attemptIf (directive : Text) (value : Option Text) (rule : Piece δ → Text → Option (Piece δ))
    (a : Applied δ) : Applied δ :=
  match value with
  | some v => attempt directive v (rule · v) a
  | none => a

/-- The name comes first, so that privacy marks the final one. -/
def applyCommands (r : Rules δ) (p : Piece δ) (c : Commands) : Applied δ :=
  let a := attemptIf "rename".toList c.rename r.rename (p, [])
  let a := attemptIf "access".toList c.access r.access a
  let a :=
    if c.decorators.isEmpty then a
    else attempt "decorator".toList (Text.join ", ".toList c.decorators)
      (r.decorate · c.decorators) a
  let a := attemptIf "params".toList c.params (fun p v => r.setParameters p (splitParams v)) a
  let (q, left) := r.extend a.1 c
  (q, a.2 ++ left.map fun f => .ignored (specialName f) (specialValue c f) q.kind q.name)

def demand (a : Applied δ) : Except Warning (Piece δ) :=
  match a.2 with
  | [] => .ok a.1
  | w :: _ => .error w

/-- The directives carried out as long as each of them can be: after one that cannot none is
tried. -/
def carryOut (r : Rules δ) (p : Piece δ) (c : Commands) : Except Warning (Piece δ) := do
  let p ← demand (attemptIf "rename".toList c.rename r.rename (p, []))
  let p ← demand (attemptIf "access".toList c.access r.access (p, []))
  let p ← demand (
    if c.decorators.isEmpty then (p, [])
    else attempt "decorator".toList (Text.join ", ".toList c.decorators)
      (r.decorate · c.decorators) (p, []))
  let p ← demand
    (attemptIf "params".toList c.params (fun p v => r.setParameters p (splitParams v)) (p, []))
  let (q, left) := r.extend p c
  demand (q, left.map fun f => .ignored (specialName f) (specialValue c f) q.kind q.name)

/-- The snippet's piece as it enters the table in place of `base`. -/
def adopt (base : Option (Piece δ)) (p : Piece δ) : Piece δ :=
  { p with
    origin := .snippet
    replaces := base.bind fun b => if b.origin = .host then some b.name else b.replaces }

def place (placement : Placement) (table : Pieces δ) (name : Text) (base : Option (Piece δ))
    (p : Piece δ) : Pieces δ :=
  if base.isSome && placement = .inPlace then Table.putInPlace table name p.name p
  else Table.putLast (Table.erase table name) p.name p

/-- One piece of the snippet. A strict run stops at the first directive that cannot be applied. -/
def step (r : Rules δ) (placement : Placement) (strict : Bool) (commands : Text → Commands)
    (s : Reconciliation δ) (entry : Text × Piece δ) : Traced (Reconciliation δ) := do
  let (name, piece) := entry
  if piece.anonymous then
    let w := .nameless piece.kind
    Traced.log (.noted w)
    return { s with warnings := s.warnings ++ [w] }
  let c := commands name
  if c.delete then
    if (s.table.get? name).isNone then Traced.log (.missing name)
    if (c.rename.map (!·.isEmpty)).getD false then Traced.log (.renameSkipped name)
    return { s with table := s.table.erase name }
  let base := s.table.get? name
  let applied : Except Warning (Applied δ) :=
    if strict then (carryOut r (adopt base piece) c).map (·, [])
    else .ok (applyCommands r (adopt base piece) c)
  match applied with
  | .error w => Traced.fail (.directive w)
  | .ok (merged, ignored) =>
    for w in ignored do Traced.log (.noted w)
    Traced.log (.placed base.isSome name merged.name)
    return ⟨place placement s.table name base merged, s.warnings ++ ignored⟩

end Reconcile

open Reconcile in
def reconcile {δ : Type} (r : Rules δ) (placement : Placement) (strict : Bool)
    (host snippet : Pieces δ) (commands : Text → Commands) : Traced (Reconciliation δ) :=
  snippet.entries.foldlM (step r placement strict commands) ⟨host, []⟩

end Graft
