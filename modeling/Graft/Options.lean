import Graft.Json

set_option autoImplicit false

/-!
What a caller can ask of a merge. Settings other than the placement are kept as they were given and
count by whether they are empty.
-/

namespace Graft

inductive Placement where
  | moveToEnd
  | inPlace
  deriving DecidableEq, Repr, Inhabited

namespace Placement

def tag : Placement → Text
  | moveToEnd => "move-to-end".toList
  | inPlace => "in-place".toList

def ofJson? : Json → Option Placement
  | .text t => [moveToEnd, inPlace].find? fun p => p.tag == t
  | _ => none

end Placement

structure Options where
  /-- `none` leaves the choice to the notation. -/
  placement : Option Placement := none
  /-- The class that bare snippets are wrapped in. -/
  container : Json := .text "__CodeBridgeSnippet__".toList
  strict : Json := .bool false
  validate : Json := .bool true
  deriving Inhabited

namespace Options

/-- Takes one member of a settings object; unknown keys are passed over. -/
def set (o : Options) (key : Text) (v : Json) : Except Json Options :=
  if key == "placement".toList then
    match v with
    | .null => .ok { o with placement := none }
    | v => match Placement.ofJson? v with
      | some p => .ok { o with placement := some p }
      | none => .error v
  else if key == "sentinel_container".toList then .ok { o with container := v }
  else if key == "strict_directives".toList then .ok { o with strict := v }
  else if key == "validate_output".toList then .ok { o with validate := v }
  else .ok o

def ofMembers (members : List (Text × Json)) : Except Json Options :=
  members.foldlM (fun o (k, v) => o.set k v) {}

def toJson (o : Options) : Json :=
  .object [("placement".toList, (o.placement.map fun p => Json.text p.tag).getD .null),
    ("sentinel_container".toList, o.container), ("strict_directives".toList, o.strict),
    ("validate_output".toList, o.validate)]

def isStrict (o : Options) : Bool := o.strict.truthy

def validates (o : Options) : Bool := o.validate.truthy

def isContainer (o : Options) (name : Text) : Bool :=
  match o.container with
  | .text t => t == name
  | _ => false

end Options

end Graft
