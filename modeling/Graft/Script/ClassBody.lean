import Graft.Script.Type

set_option autoImplicit false

/-!
Class bodies with their members, and the members of object literals.
-/

namespace Graft.Script

open Graft.Script.Parser

variable (i : Inside)

def block : Parser PUnit := do
  expect "\x7b"
  let _ ← many i.statement i.bound
  expect "\x7d"
  trailingComments

def modifierWords : List Text :=
  ["public", "private", "protected", "static", "override", "readonly", "async", "get",
    "set", "declare", "abstract", "accessor"].map String.toList

def isPureModifier (w : Text) : Bool := w == "abstract".toList || w == "accessor".toList

def isAccessibility (w : Text) : Bool :=
  w == "public".toList || w == "private".toList || w == "protected".toList

def endsName (c : Char) : Bool := "(<?!:=;,\x7d".toList.contains c

def isNameNext (inClass : Bool) (w : Text) : Parser Bool := do
  if !modifierWords.contains w then return true
  if inClass && isPureModifier w then return false
  let rest ← peekAfterWord
  let size := (← get).size
  if inClass && impliedFrom false false (size + 1) rest then return true
  return (extrasFrom size rest).2.head?.all endsName

def modifiers (inClass : Bool) : Nat → Parser (List (Text × Part))
  | 0 => return []
  | bound + 1 => do
    let comments := (← extras).map fun s => (([] : Text), (⟨.comment, s⟩ : Part))
    match ← peek? with
    | some '*' =>
      let (_, s) ← spanned (expect "*")
      return comments ++ (['*'], ⟨.modifier, s⟩) :: (← modifiers inClass bound)
    | some _ =>
      match ← peekWord? with
      | some w =>
        if ← isNameNext inClass w then return comments
        else
          let (_, s) ← spanned word
          let kind := if isAccessibility w then PartKind.accessibility else .modifier
          return comments ++ (w, ⟨kind, s⟩) :: (← modifiers inClass bound)
      | none => return comments
    | none => return comments

/-- The words come in the order of the groups, at most one from each. -/
def inOrder : List (List String) → List Text → Bool
  | _, [] => true
  | [], _ :: _ => false
  | g :: gs, w :: ws =>
    if g.any (·.toList == w) then inOrder gs ws else inOrder gs (w :: ws)

def accessWords : List String := ["public", "private", "protected"]

def methodOrder : List (List String) :=
  [accessWords, ["static"], ["override"], ["readonly"], ["async"], ["get", "set", "*"]]

def abstractOrder : List (List String) :=
  [accessWords, ["abstract"], ["override"], ["get", "set", "*"]]

def fieldOrders : List (List (List String)) :=
  let heads := [[["declare"], accessWords], [accessWords, ["declare"]]]
  let tails := [[["static"], ["override"], ["readonly"]], [["abstract"], ["readonly"]],
    [["readonly"], ["abstract"]], [["accessor"]]]
  heads.flatMap fun h => tails.map (h ++ ·)

/-- A member after its modifiers; `start` is where it starts. -/
def memberAfter (start : Nat) (ms : List (Text × Part)) (isDecorated : Bool) :
    Parser MemberNode := do
  let words := (ms.map (·.1)).filter (!·.isEmpty)
  let parts := ms.map (·.2)
  let (kind, nameSpan) ← spanned (propertyName i)
  let name := some (kind, nameSpan)
  let ended ← implied false false
  if !ended && (← accept "!") then
    guardThat (fieldOrders.any (inOrder · words))
    typeHint? i true
    let hasValue ← initializer? i true
    return { kind := .field, span := ⟨start, (← get).last⟩, name, parts, hasValue }
  else
    if !ended then
      let _ ← accept "?"
    if !ended && ((← atText? "(") || (← atText? "<")) then
      let ps ← callSignature i true
      if words.contains "abstract".toList then
        guardThat (inOrder abstractOrder words && !isDecorated)
        return { kind := .abstractSignature, span := ⟨start, (← get).last⟩ }
      else
        guardThat (inOrder methodOrder words)
        if ← atText? "\x7b" then
          let (_, body) ← spanned (block i)
          return { kind := .method, span := ⟨start, body.stop⟩, name, parts, parameters := some ps,
                   body := some body }
        else
          guardThat !isDecorated
          return { kind := .signature, span := ⟨start, (← get).last⟩ }
    else
      guardThat (fieldOrders.any (inOrder · words))
      if !ended then typeHint? i true
      let hasValue ← if ended then pure false else initializer? i true
      return { kind := .field, span := ⟨start, (← get).last⟩, name, parts, hasValue }

def member (isDecorated : Bool) : Parser MemberNode := do
  let staticBlock : Parser MemberNode := do
    let (_, s) ← spanned (do
      expectWord "static"
      block i)
    return { kind := .staticBlock, span := s }
  let index : Parser MemberNode := do
    let (_, s) ← spanned (indexSignature i true)
    return { kind := .index, span := s }
  let named : Parser MemberNode := do
    let _ ← extras
    let start := (← get).offset
    let ms ← modifiers true i.bound
    memberAfter i start ms isDecorated
  if isDecorated then named else staticBlock <|> index <|> named

def decorators : Nat → Parser (List Child)
  | 0 => return []
  | bound + 1 => do
    if ← atText? "@" then
      let comments ← extras
      let (_, s) ← spanned (decorator i)
      return comments.map .comment ++ .decorator s :: (← decorators bound)
    else return []

def separators : Parser (List Child) := do
  let comments ← extras
  if (← atText? ";") || (← atText? ",") then
    let (_, s) ← spanned (do if !(← accept ";") then expect ",")
    return comments.map .comment ++ [.separator s]
  else fail

/-- What ends a member; one with a block needs nothing. -/
def endMember (m : MemberNode) : Parser (List Child) := do
  match m.kind with
  | .method | .staticBlock => return []
  | k => if ← implied m.hasValue (k == .signature) then return [] else separators

def classItem : Parser (List Child) := do
  let comments ← extras
  let before := comments.map Child.comment
  if ← atText? ";" then
    let (_, s) ← spanned (expect ";")
    return before ++ [.separator s]
  let start := (← get).offset
  let ds ← decorators i i.bound
  let between ← if ds.isEmpty then pure [] else extras
  let m ← member i !ds.isEmpty
  match m.kind with
  | .field =>
    let m := if ds.isEmpty then m else { m with span := ⟨start, m.span.stop⟩ }
    return before ++ .member m :: (← endMember m)
  | _ => return before ++ ds ++ between.map .comment ++ .member m :: (← endMember m)

def classBody : Parser (List Child × Span) := spanned (do
  expect "\x7b"
  let items ← many (classItem i) i.bound
  let dangling ← extras
  expect "\x7d"
  return items.flatten ++ dangling.map .comment)

def objectMember : Parser PUnit := do
  let method : Parser PUnit := do
    let ms ← modifiers false i.bound
    guardThat (inOrder methodOrder ((ms.map (·.1)).filter (!·.isEmpty)))
    let _ ← propertyName i
    let _ ← accept "?"
    let _ ← callSignature i false
    block i
  let pair : Parser PUnit := do
    let _ ← propertyName i
    expect ":"
    i.expression false
  let short : Parser PUnit := do
    let _ ← word
  if ← accept "..." then i.expression false
  else pair <|> method <|> short

def object : Parser PUnit := do
  expect "\x7b"
  looseItems "\x7d" (objectMember i) i.bound

def heritage : Parser PUnit := do
  let parent : Parser PUnit := do
    i.expression false
    let _ ← attempt (typeArguments i)
  if ← acceptWord "extends" then
    let _ ← commaSep1 parent i.bound
  if ← acceptWord "implements" then
    let _ ← commaSep1 (i.type false) i.bound

def isHeritageWord (w : Text) : Bool := w == "extends".toList || w == "implements".toList

/-- From the name of a class on: the span of the name, and the body. -/
def classRest : Parser (Span × List Child × Span) := do
  let (w, name) ← spanned word
  guardThat (!isHeritageWord w)
  if ← atText? "<" then typeParameters i
  heritage i
  return (name, ← classBody i)

def classExpression : Parser PUnit := do
  expectWord "class"
  match ← peekWord? with
  | some w => if !isHeritageWord w then let _ ← word
  | none => pure ⟨⟩
  if ← atText? "<" then typeParameters i
  heritage i
  let _ ← classBody i

end Graft.Script
