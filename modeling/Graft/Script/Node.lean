import Graft.Script.Scan

set_option autoImplicit false

/-!
What is kept of a source: its classes, and the children of each class body in their order.
-/

namespace Graft.Script

/-- A word, sign or comment in front of the name of a member. -/
inductive PartKind where
  | accessibility
  | modifier
  | comment
  deriving DecidableEq, Repr

structure Part where
  kind : PartKind
  span : Span
  deriving DecidableEq, Repr

inductive NameKind where
  | word
  | privateWord
  | string
  | number
  | computed
  deriving DecidableEq, Repr

inductive MemberKind where
  | method
  | signature
  | abstractSignature
  | index
  | staticBlock
  | field
  deriving DecidableEq, Repr

def MemberKind.word : MemberKind → Text
  | method => "method_definition".toList
  | signature => "method_signature".toList
  | abstractSignature => "abstract_method_signature".toList
  | index => "index_signature".toList
  | staticBlock => "class_static_block".toList
  | field => "public_field_definition".toList

structure MemberNode where
  kind : MemberKind
  span : Span
  name : Option (NameKind × Span) := none
  parts : List Part := []
  /-- The parameter list with its brackets, and each parameter. -/
  parameters : Option (Span × List Span) := none
  body : Option Span := none
  hasValue : Bool := false
  deriving Repr

inductive Child where
  | comment (s : Span)
  | decorator (s : Span)
  | separator (s : Span)
  | member (m : MemberNode)
  deriving Repr

structure ClassNode where
  /-- The whole statement, with `export` if there is one. -/
  outer : Span
  span : Span
  name : Span
  body : Span
  children : List Child
  deriving Repr

abbrev Statement := Option ClassNode

end Graft.Script
